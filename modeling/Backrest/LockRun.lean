import Backrest.Lock

/-!
# What a lock means

In a run whose calls all find what they need, the name of a file that somebody has
locked leads to that file, and whoever has it by exec-id has it from a process with
that exec-id.
-/

namespace Lock

open Text BackupInfo

section Invariant
variable {P : Type} {ids : Ids P} {s s' : State P} {p : P}

def Owns (l : Local) (file : LockFile) (inode : Nat) : Prop :=
  (∃ rest got, l = .acquiring file rest got (.toWrite inode)) ∨ (file, .locked inode) ∈ fds l

/-- Files that are still to be locked. -/
def pending : Local → List LockFile
  | .acquiring file rest _ _ => file :: rest
  | _ => []

/-- What holds of one process. -/
structure Fits (ids : Ids P) (s : State P) (p : P) (l : Local) : Prop where
  opened : ∀ file rest got i, l = .acquiring file rest got (.toFlock i) → i < s.next
  owner : ∀ file i, Owns l file i → s.names file = some i ∧ s.locked i = some p
  written : ∀ file i, (file, .locked i) ∈ fds l → ∃ tail, s.content i = lockText ids p ++ tail
  back : ∀ i, s.locked i = some p →
    (∃ file, Owns l file i) ∨ ∃ closed todo, l = .closing closed i todo
  closing : ∀ closed i todo, l = .closing closed i todo →
    s.locked i = some p ∧ ∀ file, s.names file ≠ some i
  nodup : ((fds l).map Prod.fst ++ pending l).Nodup

structure Inv (ids : Ids P) (s : State P) : Prop where
  fresh : ∀ file i, s.names file = some i → i < s.next
  lockedFresh : ∀ i p, s.locked i = some p → i < s.next
  apart : ∀ file file' i, s.names file = some i → s.names file' = some i → file = file'
  fits : ∀ p, Fits ids s p (s.procs p)
  shared : ∀ p file, (file, .onExecId) ∈ fds (s.procs p) →
    ∃ q i, (file, .locked i) ∈ fds (s.procs q) ∧ ids.execId q = ids.execId p

theorem inv_start (start : Start s) : Inv ids s := by
  have idle := start.idle
  constructor
  case fresh => exact start.fresh
  case lockedFresh => simp [start.unlocked]
  case apart => exact start.apart
  case fits =>
    intro p
    rw [idle]
    constructor <;> simp [Owns, fds, pending, start.unlocked]
  case shared => simp [idle, fds]

variable {file closed : LockFile} {got todo : Got} {i : Nat} {rest : List LockFile} {l : Local}
  {fd : LockFd} {stage : Stage}

/-- Who has the lock for a file is determined. -/
theorem Inv.owner_unique (inv : Inv ids s) {p q : P} {j : Nat} (one : Owns (s.procs p) file i)
    (two : Owns (s.procs q) file j) : p = q ∧ i = j := by
  obtain ⟨name, locked⟩ := (inv.fits p).owner file i one
  obtain ⟨name', locked'⟩ := (inv.fits q).owner file j two
  rw [name] at name'
  cases name'
  rw [locked] at locked'
  cases locked'
  exact ⟨rfl, rfl⟩

def Apart (ids : Ids P) (s : State P) : Prop :=
  ∀ p q file, Holding (s.procs p) file → Closing (s.procs q) file → ids.execId q = ids.execId p

theorem holding_closing (closing : Closing l file) : Holding l file := by
  obtain ⟨inode, todo, rfl⟩ := closing
  exact .inl rfl

theorem holding_cases (holding : Holding l file) :
    Closing l file ∨ ∃ fd, (file, fd) ∈ fds l := by
  cases l with
  | held got => exact .inr holding
  | releasing todo => exact .inr holding
  | closing closed i todo =>
    rcases holding with rfl | mem
    · exact .inl ⟨i, todo, rfl⟩
    · exact .inr mem
  | _ => exact absurd holding id

theorem Inv.from_owner (inv : Inv ids s) {p : P} (got : (file, fd) ∈ fds (s.procs p)) :
    ∃ q i, (file, .locked i) ∈ fds (s.procs q) ∧ ids.execId q = ids.execId p := by
  cases fd with
  | locked i => exact ⟨p, i, got, rfl⟩
  | onExecId => exact inv.shared p file got

theorem Inv.safe (inv : Inv ids s) (apart : Apart ids s) : Safe ids s := by
  constructor
  · intro file p q holdingP holdingQ
    rcases holding_cases holdingP with closing | ⟨fd, gotP⟩
    · exact apart q p file holdingQ closing
    rcases holding_cases holdingQ with closing | ⟨fd', gotQ⟩
    · exact (apart p q file holdingP closing).symm
    obtain ⟨p', i, ownP, sameP⟩ := inv.from_owner gotP
    obtain ⟨q', j, ownQ, sameQ⟩ := inv.from_owner gotQ
    obtain ⟨rfl, -⟩ := inv.owner_unique (.inr ownP) (.inr ownQ)
    rw [← sameP, ← sameQ]
  · intro p left isFailed i locked
    rcases (inv.fits p).back i locked with ⟨file, owns⟩ | ⟨closed, todo, closing⟩
    · rw [isFailed] at owns
      rcases owns with ⟨rest, got, absurd'⟩ | mem
      · exact absurd absurd' (by simp)
      · exact absurd mem (by simp [fds])
    · rw [isFailed] at closing
      exact absurd closing (by simp)

/-! ## What a process reads -/

/-- Three lines that start what a process wrote have its exec-id in the second. -/
theorem execId_of_matches {tail execId : Str} (noLine : '\n' ∉ ids.execId p)
    (isMatch : execIdMatches ((lockText ids p ++ tail).take 128) execId = true) :
    ids.execId p = execId := by
  unfold execIdMatches at isMatch
  split at isMatch
  · rename_i first second third parts
    have isSecond : second = execId := by simpa using isMatch
    obtain ⟨absent, t, whole, later⟩ := strLstNewSplit_eq_cons parts
    obtain ⟨absent', u, rfl, -⟩ := strLstNewSplit_eq_cons later
    have digits : '\n' ∉ fmtUInt (ids.pid p) := by
      intro mem
      exact absurd (isDigit_of_mem_fmtUInt mem) (by decide)
    have text : first ++ '\n' :: (second ++ '\n' :: (u ++ (lockText ids p ++ tail).drop 128)) =
        fmtUInt (ids.pid p) ++ '\n' :: (ids.execId p ++ '\n' :: tail) := by
      have all := List.take_append_drop 128 (lockText ids p ++ tail)
      rw [whole] at all
      simpa [lockText] using all
    obtain ⟨-, rest⟩ := append_delimiter_inj absent digits text
    obtain ⟨same, -⟩ := append_delimiter_inj absent' noLine rest
    rw [← same, isSecond]
  · exact absurd isMatch (by simp)

/-! ## Files -/

/-- A process that does not move, when files and locks of others change. -/
theorem Fits.frame {t : State P} (fits : Fits ids s p l) (next : s.next ≤ t.next)
    (names : ∀ file i, Owns l file i → s.names file = some i → t.names file = some i)
    (locked : ∀ i, t.locked i = some p ↔ s.locked i = some p)
    (content : ∀ file i, (file, .locked i) ∈ fds l → t.content i = s.content i)
    (old : ∀ file i, s.locked i = some p → t.names file = some i → s.names file = some i) :
    Fits ids t p l := by
  constructor
  case opened =>
    exact fun file rest got i equal => (fits.opened file rest got i equal).trans_le next
  case owner =>
    intro file i owns
    obtain ⟨name, isLocked⟩ := fits.owner file i owns
    exact ⟨names file i owns name, (locked i).mpr isLocked⟩
  case written =>
    intro file i mem
    rw [content file i mem]
    exact fits.written file i mem
  case back => exact fun i isLocked => fits.back i ((locked i).mp isLocked)
  case closing =>
    intro closed i todo equal
    obtain ⟨isLocked, unnamed⟩ := fits.closing closed i todo equal
    exact ⟨(locked i).mpr isLocked, fun file name => unnamed file (old file i isLocked name)⟩
  case nodup => exact fits.nodup

theorem Inv.create (inv : Inv ids s) (missing : s.names file = none) :
    Inv ids (s.create file) := by
  have cases_ : ∀ f i, (s.create file).names f = some i → f = file ∧ i = s.next ∨ s.names f = some i := by
    intro f i name
    simp only [State.create] at name
    split at name
    · rename_i isFile
      exact .inl ⟨isFile, (Option.some.inj name).symm⟩
    · exact .inr name
  constructor
  case fresh =>
    intro f i name
    change i < s.next + 1
    rcases cases_ f i name with ⟨-, rfl⟩ | name
    · omega
    · have lt := inv.fresh f i name
      omega
  case lockedFresh => exact fun i p locked => Nat.lt_succ_of_lt (inv.lockedFresh i p locked)
  case apart =>
    intro f g i name name'
    rcases cases_ f i name with ⟨isFile, isNew⟩ | oldName <;>
      rcases cases_ g i name' with ⟨isFile', isNew'⟩ | oldName'
    · rw [isFile, isFile']
    · exact absurd (inv.fresh g i oldName') (by omega)
    · exact absurd (inv.fresh f i oldName) (by omega)
    · exact inv.apart f g i oldName oldName'
  case fits =>
    intro p
    apply (inv.fits p).frame (Nat.le_succ _)
    · intro f i _ name
      simp only [State.create]
      rw [if_neg, name]
      rintro rfl
      rw [missing] at name
      cases name
    · exact fun _ => Iff.rfl
    · intro f i mem
      have lt := inv.lockedFresh i p ((inv.fits p).owner f i (.inr mem)).2
      exact if_neg (by omega)
    · intro f i locked name
      rcases cases_ f i name with ⟨-, rfl⟩ | name
      · exact absurd (inv.lockedFresh _ p locked) (by omega)
      · exact name
  case shared => exact inv.shared

theorem Inv.writeStart (inv : Inv ids s) (here : s.procs p = .acquiring file rest got (.toWrite i))
    (text : Str) :
    Inv ids (s.writeStart i text) := by
  obtain ⟨name, locked⟩ := (inv.fits p).owner file i (.inl ⟨rest, got, here⟩)
  refine { inv with fits := fun q => (inv.fits q).frame (Nat.le_refl _) (fun _ _ _ name => name)
                      (fun _ => Iff.rfl) ?_ (fun _ _ _ name => name) }
  intro f j mem
  refine if_neg ?_
  rintro rfl
  obtain ⟨name', locked'⟩ := (inv.fits q).owner f j (.inr mem)
  rw [locked] at locked'
  cases locked'
  -- the file it is about to get is not one it has
  obtain rfl := inv.apart f file j name' name
  have nodup := (inv.fits p).nodup
  rw [here] at nodup mem
  exact (List.nodup_append'.mp nodup).2.2 (List.mem_map_of_mem mem) List.mem_cons_self

/-! ## One call -/

variable [DecidableEq P]

@[simp]
theorem set_self (s : State P) (p : P) (l : Local) : (s.set p l).procs p = l := by
  simp [State.set]

theorem set_other (s : State P) {p q : P} (l : Local) (other : q ≠ p) :
    (s.set p l).procs q = s.procs q := by
  simp [State.set, other]

/-- A fact about every process, when one has changed. -/
theorem forall_set (holds : P → Local → Prop) (here : holds p l)
    (others : ∀ q, q ≠ p → holds q (s.procs q)) : ∀ q, holds q ((s.set p l).procs q) := by
  intro q
  by_cases same : q = p
  · subst same
    rw [set_self]
    exact here
  · rw [set_other s l same]
    exact others q same

/-- One process goes on. It may change files and locks, but not what another process relies on. -/
theorem Inv.set {t : State P} (inv : Inv ids s) (procs : t.procs = s.procs)
    (fresh : ∀ file i, t.names file = some i → i < t.next)
    (lockedFresh : ∀ i q, t.locked i = some q → i < t.next)
    (apart : ∀ file file' i, t.names file = some i → t.names file' = some i → file = file')
    (here : Fits ids t p l) (others : ∀ q, q ≠ p → Fits ids t q (s.procs q))
    (gets : ∀ file, (file, .onExecId) ∈ fds l →
      ∃ q i, (file, .locked i) ∈ fds (s.procs q) ∧ ids.execId q = ids.execId p)
    (leaves : ∀ file i, (file, .locked i) ∈ fds (s.procs p) → (file, .locked i) ∈ fds l ∨
      ∀ q, (file, .onExecId) ∉ fds ((t.set p l).procs q)) : Inv ids (t.set p l) := by
  constructor
  case fresh => exact fresh
  case lockedFresh => exact lockedFresh
  case apart => exact apart
  case fits =>
    intro q
    refine Fits.frame (s := t) ?_ (Nat.le_refl _) (fun _ _ _ name => name) (fun _ => Iff.rfl)
      (fun _ _ _ => rfl) (fun _ _ _ name => name)
    revert q
    exact forall_set (Fits ids t) here fun q other => procs ▸ others q other
  case shared =>
    intro q f mem
    have found : ∃ q' i, (f, .locked i) ∈ fds (s.procs q') ∧ ids.execId q' = ids.execId q := by
      by_cases same : q = p
      · subst same
        rw [set_self] at mem
        exact gets f mem
      · rw [set_other _ _ same, procs] at mem
        exact inv.shared q f mem
    obtain ⟨q', i, own, sameId⟩ := found
    refine ⟨q', i, ?_, sameId⟩
    by_cases same : q' = p
    · subst same
      rw [set_self]
      exact (leaves f i own).resolve_right fun none => none q mem
    · rwa [set_other _ _ same, procs]

omit [DecidableEq P] in
/-- A process goes on with the same locks. -/
theorem Fits.go {l' : Local} (fits : Fits ids s p l)
    (owns : ∀ file i, Owns l' file i ↔ Owns l file i)
    (written : ∀ file i, (file, .locked i) ∈ fds l' → ∃ tail, s.content i = lockText ids p ++ tail)
    (notClosing : ∀ closed i todo, l' ≠ .closing closed i todo)
    (wasNotClosing : ∀ closed i todo, l ≠ .closing closed i todo)
    (opened : ∀ file rest got i, l' = .acquiring file rest got (.toFlock i) → i < s.next)
    (nodup : ((fds l').map Prod.fst ++ pending l').Nodup) : Fits ids s p l' := by
  constructor
  case opened => exact opened
  case owner => exact fun f i own => fits.owner f i ((owns f i).mp own)
  case written => exact written
  case back =>
    intro i locked
    rcases fits.back i locked with ⟨f, own⟩ | ⟨closed, todo, closing⟩
    · exact .inl ⟨f, (owns f i).mpr own⟩
    · exact absurd closing (wasNotClosing closed i todo)
  case closing => exact fun closed i todo closing => absurd closing (notClosing closed i todo)
  case nodup => exact nodup

/-- It may leave files it has by exec-id. -/
theorem Inv.set_local (inv : Inv ids s) (sub : ∀ e ∈ fds l, e ∈ fds (s.procs p))
    (keeps : ∀ file i, (file, .locked i) ∈ fds (s.procs p) → (file, .locked i) ∈ fds l)
    (owns : ∀ file i, Owns l file i ↔ Owns (s.procs p) file i)
    (notClosing : ∀ closed i todo, l ≠ .closing closed i todo)
    (wasNotClosing : ∀ closed i todo, s.procs p ≠ .closing closed i todo)
    (opened : ∀ file rest got i, l = .acquiring file rest got (.toFlock i) → i < s.next)
    (nodup : ((fds l).map Prod.fst ++ pending l).Nodup) : Inv ids (s.set p l) :=
  inv.set rfl inv.fresh inv.lockedFresh inv.apart
    ((inv.fits p).go owns (fun f i mem => (inv.fits p).written f i (sub _ mem)) notClosing
      wasNotClosing opened nodup)
    (fun q _ => inv.fits q) (fun f mem => inv.shared p f (sub _ mem))
    fun f i mem => .inl (keeps f i mem)

/-- A lock is taken on the file that has the name. -/
theorem Inv.flock (inv : Inv ids s) (here : s.procs p = .acquiring file rest got (.toFlock i))
    (free : s.locked i = none) (named : s.names file = some i) :
    Inv ids ((s.setLocked i (some p)).set p (.acquiring file rest got (.toWrite i))) := by
  have lockedIff : ∀ j q, (s.setLocked i (some p)).locked j = some q ↔
      (j = i ∧ q = p) ∨ s.locked j = some q := by
    intro j q
    simp only [State.setLocked]
    split
    · rename_i same
      subst same
      rw [free]
      simp [eq_comm]
    · rename_i other
      simp [other]
  have old := inv.fits p
  rw [here] at old
  apply inv.set (t := s.setLocked i (some p)) rfl inv.fresh
  case apart => exact inv.apart
  case lockedFresh =>
    intro j q locked
    rcases (lockedIff j q).mp locked with ⟨rfl, -⟩ | locked
    · exact old.opened _ _ _ _ rfl
    · exact inv.lockedFresh j q locked
  case here =>
    constructor
    case opened => simp
    case owner =>
      rintro f j (⟨rest', got', equal⟩ | mem)
      · cases equal
        exact ⟨named, (lockedIff _ _).mpr (.inl ⟨rfl, rfl⟩)⟩
      · obtain ⟨name, locked⟩ := old.owner f j (.inr mem)
        exact ⟨name, (lockedIff j p).mpr (.inr locked)⟩
    case written => exact old.written
    case back =>
      intro j locked
      rcases (lockedIff j p).mp locked with ⟨rfl, -⟩ | wasLocked
      · exact .inl ⟨file, .inl ⟨rest, got, rfl⟩⟩
      · rcases old.back j wasLocked with ⟨f, ⟨rest', got', equal⟩ | mem⟩ | ⟨closed, todo, closing⟩
        · cases equal
        · exact .inl ⟨f, .inr mem⟩
        · cases closing
    case closing => simp
    case nodup => exact old.nodup
  case others =>
    intro q other
    refine (inv.fits q).frame (Nat.le_refl _) (fun _ _ _ name => name) (fun j => ?_)
      (fun _ _ _ => rfl) (fun _ _ _ name => name)
    rw [lockedIff]
    exact or_iff_right fun both => other both.2
  case gets =>
    intro f mem
    exact inv.shared p f (by rwa [here])
  case leaves =>
    intro f j mem
    rw [here] at mem
    exact .inl mem

/-- What a process has when it goes on with the next file. -/
theorem fds_acquired (file : LockFile) (fd : LockFd) (got : Got) (rest : List LockFile) :
    fds (acquired file fd got rest) = got ++ [(file, fd)] := by
  cases rest <;> rfl

theorem owns_acquired {f : LockFile} :
    Owns (acquired file fd got rest) f i ↔ (f, .locked i) ∈ got ∨ (f, LockFd.locked i) = (file, fd) := by
  have noWrite : ¬ ∃ rest' got', acquired file fd got rest = .acquiring f rest' got' (.toWrite i) := by
    rintro ⟨rest', got', equal⟩
    cases rest <;> simp [acquired] at equal
  rw [Owns, fds_acquired, List.mem_append, List.mem_singleton]
  simp [noWrite]

theorem acquired_not_closing : acquired file fd got rest ≠ .closing closed i todo := by
  cases rest <;> simp [acquired]

theorem acquired_not_flock {f : LockFile} {got' : Got} {rest' : List LockFile} :
    acquired file fd got rest ≠ .acquiring f rest' got' (.toFlock i) := by
  cases rest <;> simp [acquired]

theorem nodup_acquired (fd : LockFd) (nodup : (got.map Prod.fst ++ file :: rest).Nodup) :
    ((fds (acquired file fd got rest)).map Prod.fst ++ pending (acquired file fd got rest)).Nodup := by
  have pending_ : pending (acquired file fd got rest) = rest := by cases rest <;> rfl
  rw [fds_acquired, pending_]
  simpa using nodup

theorem Inv.set_acquired (inv : Inv ids s) {file : LockFile} {rest : List LockFile} {got : Got}
    {stage : Stage} {fd : LockFd} (here : s.procs p = .acquiring file rest got stage)
    (owns : ∀ f i, Owns (s.procs p) f i ↔ (f, .locked i) ∈ got ∨ (f, LockFd.locked i) = (file, fd))
    (written : ∀ i, fd = .locked i → ∃ tail, s.content i = lockText ids p ++ tail)
    (shared : fd = .onExecId → ∃ q i, (file, .locked i) ∈ fds (s.procs q) ∧ ids.execId q = ids.execId p) :
    Inv ids (s.set p (acquired file fd got rest)) := by
  have nodup := (inv.fits p).nodup
  rw [here] at nodup
  have old : ∀ e, e ∈ fds (acquired file fd got rest) → e ∈ fds (s.procs p) ∨ e = (file, fd) := by
    intro e mem
    rw [fds_acquired, List.mem_append, List.mem_singleton] at mem
    rw [here]
    exact mem
  refine inv.set rfl inv.fresh inv.lockedFresh inv.apart
    ((inv.fits p).go (fun f i => owns_acquired.trans (owns f i).symm) ?_
      (fun _ _ _ => acquired_not_closing) (by simp [here])
      (fun _ _ _ _ equal => absurd equal acquired_not_flock) (nodup_acquired fd nodup))
    (fun q _ => inv.fits q) ?_ ?_
  · intro f i mem
    rcases old _ mem with mem | same
    · exact (inv.fits p).written f i mem
    · exact written i (Prod.mk.inj same).2.symm
  · intro f mem
    rcases old _ mem with mem | same
    · exact inv.shared p f mem
    · obtain ⟨rfl, isFd⟩ := Prod.mk.inj same
      exact shared isFd.symm
  · intro f i mem
    rw [here] at mem
    rw [fds_acquired]
    exact .inl (List.mem_append_left _ mem)

theorem mem_fds_release {e : LockFile × LockFd} (mem : e ∈ fds (release got)) : e ∈ got := by
  induction got with
  | nil => exact absurd mem List.not_mem_nil
  | cons first todo ih =>
    obtain ⟨file, fd⟩ := first
    cases fd with
    | onExecId => exact List.mem_cons_of_mem _ (ih mem)
    | locked i => exact mem

theorem locked_mem_fds_release (mem : (file, .locked i) ∈ got) :
    (file, .locked i) ∈ fds (release got) := by
  induction got with
  | nil => exact absurd mem List.not_mem_nil
  | cons first todo ih =>
    obtain ⟨other, fd⟩ := first
    cases fd with
    | onExecId =>
      rcases List.mem_cons.mp mem with same | mem
      · exact absurd (Prod.mk.inj same).2 (by simp)
      · exact ih mem
    | locked j => exact mem

theorem release_cases (got : Got) : release got = .idle ∨ ∃ todo, release got = .releasing todo := by
  induction got with
  | nil => exact .inl rfl
  | cons first todo ih =>
    obtain ⟨file, fd⟩ := first
    cases fd with
    | onExecId => exact ih
    | locked i => exact .inr ⟨_, rfl⟩

theorem release_sublist (got : Got) : (fds (release got)).Sublist got := by
  induction got with
  | nil => exact List.Sublist.slnil
  | cons first todo ih =>
    obtain ⟨file, fd⟩ := first
    cases fd with
    | onExecId => exact ih.cons _
    | locked i => exact List.Sublist.refl _

theorem owns_release :
    Owns (release got) file i ↔ (file, .locked i) ∈ got := by
  constructor
  · rintro (⟨rest, got', equal⟩ | mem)
    · rcases release_cases got with isIdle | ⟨todo, isReleasing⟩
      · rw [isIdle] at equal
        exact absurd equal (by simp)
      · rw [isReleasing] at equal
        exact absurd equal (by simp)
    · exact mem_fds_release mem
  · exact fun mem => .inr (locked_mem_fds_release mem)

theorem release_ne_closing :
    release got ≠ .closing closed i todo := by
  rcases release_cases got with equal | ⟨_, equal⟩ <;> simp [equal]

theorem release_ne_acquiring {got' : Got} :
    release got ≠ .acquiring file rest got' stage := by
  rcases release_cases got with equal | ⟨_, equal⟩ <;> simp [equal]

theorem nodup_release (nodup : (got.map Prod.fst).Nodup) :
    ((fds (release got)).map Prod.fst ++ pending (release got)).Nodup := by
  have nothing : pending (release got) = [] := by
    rcases release_cases got with equal | ⟨_, equal⟩ <;> rw [equal] <;> rfl
  rw [nothing, List.append_nil]
  exact nodup.sublist ((release_sublist got).map _)

theorem Inv.remove (inv : Inv ids s) (here : s.procs p = .releasing ((file, .locked i) :: todo))
    (alone : ∀ q, (file, .onExecId) ∉ fds (s.procs q)) :
    Inv ids ((s.unlink file).set p (.closing file i todo)) := by
  have owned : Owns (s.procs p) file i := .inr (by rw [here]; exact List.mem_cons_self)
  obtain ⟨name, locked⟩ := (inv.fits p).owner file i owned
  have old := inv.fits p
  rw [here] at old
  have nodup := old.nodup
  simp only [fds, pending, List.map_cons, List.append_nil, List.nodup_cons] at nodup
  have namesIff : ∀ f j, (s.unlink file).names f = some j ↔ f ≠ file ∧ s.names f = some j := by
    intro f j
    simp only [State.unlink]
    split <;> simp [*]
  apply inv.set (t := s.unlink file) rfl
  case fresh => exact fun f j name => inv.fresh f j ((namesIff f j).mp name).2
  case lockedFresh => exact inv.lockedFresh
  case apart =>
    exact fun f g j name name' => inv.apart f g j ((namesIff f j).mp name).2 ((namesIff g j).mp name').2
  case here =>
    constructor
    case opened => simp
    case owner =>
      rintro f j (⟨rest, got, equal⟩ | mem)
      · cases equal
      · obtain ⟨name, isLocked⟩ := old.owner f j (.inr (List.mem_cons_of_mem _ mem))
        refine ⟨(namesIff f j).mpr ⟨?_, name⟩, isLocked⟩
        rintro rfl
        exact nodup.1 (List.mem_map_of_mem mem)
    case written => exact fun f j mem => old.written f j (List.mem_cons_of_mem _ mem)
    case back =>
      intro j isLocked
      rcases old.back j isLocked with ⟨f, ⟨rest, got, equal⟩ | mem⟩ | ⟨closed, todo', closing⟩
      · cases equal
      · rcases List.mem_cons.mp mem with same | mem
        · cases same
          exact .inr ⟨file, todo, rfl⟩
        · exact .inl ⟨f, .inr mem⟩
      · cases closing
    case closing =>
      rintro _ _ _ ⟨⟩
      refine ⟨locked, fun f name' => ?_⟩
      obtain ⟨different, named⟩ := (namesIff f i).mp name'
      exact different (inv.apart f file i named name)
    case nodup => simpa [fds, pending] using nodup.2
  case others =>
    intro q other
    refine (inv.fits q).frame (Nat.le_refl _) (fun f j owns name => (namesIff f j).mpr ⟨?_, name⟩)
      (fun _ => Iff.rfl) (fun _ _ _ => rfl) (fun f j _ name => ((namesIff f j).mp name).2)
    rintro rfl
    exact other (inv.owner_unique owns owned).1
  case gets =>
    intro f mem
    exact inv.shared p f (by rw [here]; exact List.mem_cons_of_mem _ mem)
  case leaves =>
    intro f j mem
    rw [here] at mem
    rcases List.mem_cons.mp mem with same | mem
    · cases same
      right
      apply forall_set (fun _ l => (file, .onExecId) ∉ fds l)
      · intro mem
        exact alone p (by rw [here]; exact List.mem_cons_of_mem _ mem)
      · exact fun q _ => alone q
    · exact .inl mem

/-- A file that has no name is closed. -/
theorem Inv.closeLock (inv : Inv ids s) (here : s.procs p = .closing closed i todo) :
    Inv ids ((s.setLocked i none).set p (release todo)) := by
  have old := inv.fits p
  rw [here] at old
  obtain ⟨locked, unnamed⟩ := old.closing closed i todo rfl
  have lockedIff : ∀ j q, (s.setLocked i none).locked j = some q ↔ j ≠ i ∧ s.locked j = some q := by
    intro j q
    simp only [State.setLocked]
    split <;> simp [*]
  apply inv.set (t := s.setLocked i none) rfl inv.fresh
  case lockedFresh => exact fun j q isLocked => inv.lockedFresh j q ((lockedIff j q).mp isLocked).2
  case apart => exact inv.apart
  case here =>
    constructor
    case opened => exact fun _ _ _ _ equal => absurd equal release_ne_acquiring
    case owner =>
      intro f j owns
      obtain ⟨name, isLocked⟩ := old.owner f j (.inr (owns_release.mp owns))
      refine ⟨name, (lockedIff j p).mpr ⟨?_, isLocked⟩⟩
      rintro rfl
      exact unnamed f name
    case written => exact fun f j mem => old.written f j (mem_fds_release mem)
    case back =>
      intro j isLocked
      obtain ⟨different, wasLocked⟩ := (lockedIff j p).mp isLocked
      rcases old.back j wasLocked with ⟨f, ⟨rest, got, equal⟩ | mem⟩ | ⟨closed, todo', closing⟩
      · cases equal
      · exact .inl ⟨f, owns_release.mpr mem⟩
      · cases closing
        exact absurd rfl different
    case closing => exact fun _ _ _ closing => absurd closing release_ne_closing
    case nodup =>
      have nodup := old.nodup
      simp only [fds, pending, List.append_nil] at nodup
      exact nodup_release nodup
  case others =>
    intro q other
    refine (inv.fits q).frame (Nat.le_refl _) (fun _ _ _ name => name) (fun j => ?_)
      (fun _ _ _ => rfl) (fun _ _ _ name => name)
    rw [lockedIff]
    refine and_iff_right_of_imp ?_
    rintro isLocked rfl
    rw [locked] at isLocked
    exact other (Option.some.inj isLocked).symm
  case gets =>
    intro f mem
    exact inv.shared p f (by rw [here]; exact mem_fds_release mem)
  case leaves =>
    intro f j mem
    rw [here] at mem
    exact .inl (locked_mem_fds_release mem)

theorem Inv.retry (inv : Inv ids s) (here : s.procs p = .acquiring file rest got stage)
    (notWriting : ∀ i, stage ≠ .toWrite i) (again : Bool)
    (unlocked : again = false → ∀ other i, (other, .locked i) ∉ got) :
    Inv ids (s.set p (if again then .acquiring file rest got .toOpen else .failed got)) := by
  have owns : ∀ f i, Owns (s.procs p) f i ↔ (f, .locked i) ∈ got := by
    intro f i
    rw [here]
    constructor
    · rintro (⟨rest', got', equal⟩ | mem)
      · cases equal
        exact absurd rfl (notWriting i)
      · exact mem
    · exact .inr
  cases again with
  | true =>
    apply inv.set_local
    · intro e mem
      rw [here]
      exact mem
    · intro f i mem
      rw [here] at mem
      exact mem
    · intro f i
      rw [owns]
      constructor
      · rintro (⟨rest', got', equal⟩ | mem)
        · exact absurd equal (by simp)
        · exact mem
      · exact .inr
    · simp
    · simp [here]
    · simp
    · have nodup := (inv.fits p).nodup
      rwa [here] at nodup
  | false =>
    have none := unlocked rfl
    apply inv.set_local
    · simp [fds]
    · intro f i mem
      rw [here] at mem
      exact absurd mem (none f i)
    · intro f i
      rw [owns]
      simp [Owns, fds, none]
    · simp
    · simp [here]
    · simp
    · simp [fds, pending]

/-- A stage that changes no lock. -/
theorem Inv.set_stage (inv : Inv ids s) {stage' : Stage}
    (here : s.procs p = .acquiring file rest got stage) (notWriting : ∀ i, stage ≠ .toWrite i)
    (notWriting' : ∀ i, stage' ≠ .toWrite i) (opened : ∀ i, stage' = .toFlock i → i < s.next) :
    Inv ids (s.set p (.acquiring file rest got stage')) := by
  apply inv.set_local
  · intro e mem
    rw [here]
    exact mem
  · intro f i mem
    rw [here] at mem
    exact mem
  · intro f i
    rw [here]
    constructor
    · rintro (⟨rest', got', equal⟩ | mem)
      · cases equal
        exact absurd rfl (notWriting' i)
      · exact .inr mem
    · rintro (⟨rest', got', equal⟩ | mem)
      · cases equal
        exact absurd rfl (notWriting i)
      · exact .inr mem
  · simp
  · simp [here]
  · intro f rest' got' i equal
    cases equal
    exact opened i rfl
  · have nodup := (inv.fits p).nodup
    rwa [here] at nodup

theorem Inv.set_start (inv : Inv ids s) (nothing : fds (s.procs p) = [])
    (noOwns : ∀ f i, ¬ Owns (s.procs p) f i) (notClosing : ∀ closed i todo, s.procs p ≠ .closing closed i todo)
    (lockType : LockType) : Inv ids (s.set p (startAcquire lockType)) := by
  have shape : ∃ file rest, startAcquire lockType = .acquiring file rest [] .toOpen ∧
      (file :: rest).Nodup := by
    cases lockType with
    | archive => exact ⟨_, _, rfl, by decide⟩
    | backup => exact ⟨_, _, rfl, by decide⟩
    | all => exact ⟨_, _, rfl, by decide⟩
  obtain ⟨file, rest, equal, nodup⟩ := shape
  rw [equal]
  apply inv.set_local
  · simp [fds]
  · simp [nothing]
  · intro f i
    refine ⟨fun owns => ?_, fun owns => absurd owns (noOwns f i)⟩
    rcases owns with ⟨rest', got', equal⟩ | mem
    · exact absurd equal (by simp)
    · exact absurd mem List.not_mem_nil
  · simp
  · exact notClosing
  · simp
  · simpa [fds, pending] using nodup

/-- Every call that finds what it needs keeps the invariant. -/
theorem Inv.step (noLine : ∀ p, '\n' ∉ ids.execId p) (inv : Inv ids s) {event : Event}
    (careful : Careful ids s p event) (ran : step ids s p event = some s') : Inv ids s' := by
  unfold Lock.step at ran
  unfold Careful at careful
  split at ran
  · rename_i lockType here
    cases ran
    exact inv.set_start (by rw [here]; rfl) (by simp [here, Owns, fds]) (by simp [here]) lockType
  · rename_i lockType here
    cases ran
    exact inv.set_start (by rw [here]; rfl) (by simp [here, Owns, fds]) (by simp [here]) lockType
  · rename_i file rest got here
    split at ran
    · rename_i i name
      cases ran
      exact inv.set_stage here (by simp) (by simp) (fun j equal => by
        cases equal
        exact inv.fresh file i name)
    · rename_i missing
      cases ran
      have created := inv.create missing
      exact created.set_stage here (by simp) (by simp) (fun j equal => by
        cases equal
        exact Nat.lt_succ_self _)
  · rename_i again file rest got here
    cases ran
    simp only [here] at careful
    exact inv.retry here (by simp) again careful
  · rename_i file rest got i here
    simp only [here] at careful
    split at ran
    · rename_i free
      cases ran
      exact inv.flock here free (careful free)
    · cases ran
      exact inv.set_stage here (by simp) (by simp) (by simp)
  · rename_i file rest got i here
    cases ran
    exact inv.set_stage here (by simp) (by simp) (by simp)
  · rename_i again file rest got i buffer here
    simp only [here] at careful
    split at ran
    · rename_i isMatch
      rw [if_pos isMatch] at careful
      obtain ⟨⟨name, content, q, own⟩, -⟩ := careful
      cases ran
      obtain ⟨tail, text⟩ := (inv.fits q).written file i own
      rw [text] at content
      have sameId : ids.execId q = ids.execId p :=
        execId_of_matches (noLine q) (by rw [content]; exact isMatch)
      refine inv.set_acquired here ?_ (by simp) (fun _ => ⟨q, i, own, sameId⟩)
      intro f j
      simp [here, Owns, fds]
    · rename_i noMatch
      rw [if_neg noMatch] at careful
      cases ran
      exact inv.retry here (by simp) again careful
  · rename_i file rest got i here
    cases ran
    have wrote := inv.writeStart here (lockText ids p)
    refine wrote.set_acquired here ?_ ?_ (by simp)
    · intro f j
      change Owns (s.procs p) f j ↔ _
      rw [here]
      constructor
      · rintro (⟨rest', got', equal⟩ | mem)
        · cases equal
          exact .inr rfl
        · exact .inl mem
      · rintro (mem | same)
        · exact .inr mem
        · cases same
          exact .inl ⟨rest, got, rfl⟩
    · intro j isFd
      cases isFd
      exact ⟨_, if_pos rfl⟩
  · exact absurd careful id
  · rename_i got here
    cases ran
    apply inv.set_local
    · intro e mem
      rw [here]
      exact mem_fds_release mem
    · intro f i mem
      rw [here] at mem
      exact locked_mem_fds_release mem
    · intro f i
      rw [owns_release, here]
      simp [Owns, fds]
    · exact fun closed i todo => release_ne_closing
    · simp [here]
    · exact fun _ _ _ _ equal => absurd equal release_ne_acquiring
    · have nodup := (inv.fits p).nodup
      rw [here] at nodup
      simp only [fds, pending, List.append_nil] at nodup
      exact nodup_release nodup
  · rename_i file i todo here
    simp only [here] at careful
    cases ran
    exact inv.remove here careful
  · rename_i closed i todo here
    cases ran
    exact inv.closeLock here
  · exact absurd ran (by simp)

/-! ## Between the removal and the close -/

theorem Apart.set (apart : Apart ids s)
    (holds : ∀ file, Holding l file → Holding (s.procs p) file ∨
      ∀ q, Closing (s.procs q) file → ids.execId q = ids.execId p)
    (closes : ∀ file, Closing l file → ∀ q, Holding (s.procs q) file → ids.execId p = ids.execId q) :
    Apart ids (s.set p l) := by
  intro q r file holding closing
  by_cases isQ : q = p
  · by_cases isR : r = p
    · rw [isQ, isR]
    · subst isQ
      rw [set_self] at holding
      rw [set_other _ _ isR] at closing
      rcases holds file holding with before | others
      · exact apart q r file before closing
      · exact others r closing
  · rw [set_other _ _ isQ] at holding
    by_cases isR : r = p
    · subst isR
      rw [set_self] at closing
      exact closes file closing q holding
    · rw [set_other _ _ isR] at closing
      exact apart q r file holding closing

theorem Apart.set_free (apart : Apart ids s) {l : Local} (free : ∀ file, ¬ Holding l file) :
    Apart ids (s.set p l) := by
  apply apart.set
  · exact fun file holding => absurd holding (free file)
  · exact fun file closing => absurd (holding_closing closing) (free file)

theorem Apart.set_acquired (apart : Apart ids s) {file : LockFile} {fd : LockFd} {got : Got}
    {rest : List LockFile} (none : NoneCloses ids s p (got ++ [(file, fd)]) rest) :
    Apart ids (s.set p (acquired file fd got rest)) := by
  cases rest with
  | cons next rest => exact apart.set_free fun _ => id
  | nil =>
    apply apart.set
    · rintro f ⟨fd', mem⟩
      exact .inr (none rfl f (List.mem_map_of_mem mem))
    · rintro f ⟨i, todo, equal⟩
      exact absurd equal acquired_not_closing

theorem holding_release (holding : Holding (release got) file) :
    ∃ fd, (file, fd) ∈ got := by
  rcases release_cases got with equal | ⟨todo, equal⟩
  · rw [equal] at holding
    exact absurd holding id
  · have same : fds (release got) = todo := by rw [equal]; rfl
    rw [equal] at holding
    obtain ⟨fd, mem⟩ := holding
    exact ⟨fd, mem_fds_release (same ▸ mem)⟩

theorem Apart.set_release (apart : Apart ids s) {got : Got}
    (had : ∀ file fd, (file, fd) ∈ got → Holding (s.procs p) file) :
    Apart ids (s.set p (release got)) := by
  apply apart.set
  · intro file holding
    obtain ⟨fd, mem⟩ := holding_release holding
    exact .inl (had file fd mem)
  · rintro file ⟨i, todo, equal⟩
    exact absurd equal release_ne_closing

theorem Apart.remove (apart : Apart ids s) (inv : Inv ids s)
    (here : s.procs p = .releasing ((file, .locked i) :: todo))
    (alone : ∀ q, (file, .onExecId) ∉ fds (s.procs q)) :
    Apart ids (s.set p (.closing file i todo)) := by
  have mine : (file, .locked i) ∈ fds (s.procs p) := by
    rw [here]
    exact List.mem_cons_self
  apply apart.set
  · intro f holding
    rw [here]
    rcases holding with rfl | ⟨fd, mem⟩
    · exact .inl ⟨_, List.mem_cons_self⟩
    · exact .inl ⟨fd, List.mem_cons_of_mem _ mem⟩
  · rintro f ⟨j, todo', equal⟩ q holding
    cases equal
    rcases holding_cases holding with closing | ⟨fd, mem⟩
    · have held : Holding (s.procs p) file := by
        rw [here]
        exact ⟨_, List.mem_cons_self⟩
      exact (apart p q file held closing).symm
    · cases fd with
      | onExecId => exact absurd mem (alone q)
      | locked j =>
        obtain ⟨rfl, -⟩ := inv.owner_unique (.inr mem) (.inr mine)
        rfl

theorem Apart.step (inv : Inv ids s) (apart : Apart ids s) {event : Event}
    (careful : Careful ids s p event) (ran : step ids s p event = some s') : Apart ids s' := by
  unfold Lock.step at ran
  unfold Careful at careful
  have started (lockType : LockType) : ∀ file, ¬ Holding (startAcquire lockType) file := by
    cases lockType <;> exact fun _ => id
  have retried (again : Bool) (file : LockFile) (rest : List LockFile) (got : Got) :
      ∀ f, ¬ Holding (if again then .acquiring file rest got .toOpen else .failed got) f := by
    cases again <;> exact fun _ => id
  split at ran
  · cases ran
    exact apart.set_free (started _)
  · cases ran
    exact apart.set_free (started _)
  · split at ran
    · cases ran
      exact apart.set_free fun _ => id
    · cases ran
      exact @Apart.set_free _ _ (s.create _) _ _ apart _ fun _ => id
  · cases ran
    exact apart.set_free (retried _ _ _ _)
  · split at ran
    · cases ran
      exact @Apart.set_free _ _ (s.setLocked _ _) _ _ apart _ fun _ => id
    · cases ran
      exact apart.set_free fun _ => id
  · cases ran
    exact apart.set_free fun _ => id
  · rename_i again file rest got i buffer here
    simp only [here] at careful
    split at ran
    · rename_i isMatch
      rw [if_pos isMatch] at careful
      cases ran
      exact apart.set_acquired careful.2
    · cases ran
      exact apart.set_free (retried _ _ _ _)
  · rename_i file rest got i here
    simp only [here] at careful
    cases ran
    exact @Apart.set_acquired _ _ (s.writeStart _ _) _ _ apart _ _ _ _ careful
  · exact absurd careful id
  · rename_i got here
    cases ran
    apply apart.set_release
    intro file fd mem
    rw [here]
    exact ⟨fd, mem⟩
  · rename_i file i todo here
    simp only [here] at careful
    cases ran
    exact apart.remove inv here careful
  · rename_i closed i todo here
    cases ran
    apply @Apart.set_release _ _ (s.setLocked _ _) _ _ apart
    intro file fd mem
    have holding : Holding (s.procs p) file := by
      rw [here]
      exact .inr ⟨fd, mem⟩
    exact holding
  · exact absurd ran (by simp)

/-- Every call of a run finds what it needs. -/
def CarefulRun (ids : Ids P) : State P → List (P × Event) → Prop
  | _, [] => True
  | s, call :: rest => Careful ids s call.1 call.2 ∧
    ∀ s', Lock.step ids s call.1 call.2 = some s' → CarefulRun ids s' rest

theorem inv_run (noLine : ∀ p, '\n' ∉ ids.execId p) (calls : List (P × Event)) (inv : Inv ids s)
    (apart : Apart ids s) (careful : CarefulRun ids s calls) (ran : run ids s calls = some s') :
    Inv ids s' ∧ Apart ids s' := by
  induction calls generalizing s with
  | nil =>
    cases ran
    exact ⟨inv, apart⟩
  | cons call rest ih =>
    rw [run, List.foldlM_cons] at ran
    obtain ⟨middle, first, later⟩ := Option.bind_eq_some_iff.mp ran
    exact ih (inv.step noLine careful.1 first) (apart.step inv careful.1 first)
      (careful.2 middle first) later

/-- However the calls of processes interleave, the lock is safe while each call finds what
it needs. -/
theorem lock_safe (noLine : ∀ p, '\n' ∉ ids.execId p) (start : Start s) (calls : List (P × Event))
    (careful : CarefulRun ids s calls) (ran : run ids s calls = some s') : Safe ids s' := by
  have apart : Apart ids s := by
    rintro p q file holding -
    rw [start.idle] at holding
    exact absurd holding id
  obtain ⟨inv, apart'⟩ := inv_run noLine calls (inv_start start) apart careful ran
  exact inv.safe apart'

end Invariant

/-! ## Three processes -/

section Runs

def numberIds : Ids Nat := ⟨id, fmtUInt⟩

/-- No file is there. -/
def emptyState (P : Type) : State P := ⟨fun _ => .idle, fun _ => none, fun _ => [], fun _ => none, 0⟩

theorem emptyState_start (P : Type) : Start (emptyState P) :=
  ⟨fun _ => rfl, fun _ => rfl, fun _ _ name => absurd name (by simp [emptyState]),
    fun _ _ _ name => absurd name (by simp [emptyState])⟩

def acquireCalls {P : Type} (p : P) (lockType : LockType) : List (P × Event) :=
  [(p, .lockAcquire lockType), (p, .open_), (p, .flock), (p, .write)]

/-- The second process opens the file before the first removes it, and locks it after. The
third finds no file and creates one. -/
def removedCalls : List (Nat × Event) :=
  acquireCalls 1 .archive ++ [(2, .lockAcquire .archive), (2, .open_)] ++
    [(1, .lockRelease), (1, .remove), (1, .closeLock)] ++ [(2, .flock), (2, .write)] ++
    acquireCalls 3 .archive

/-- The second process wants both files and cannot get the second. -/
def bothCalls : List (Nat × Event) :=
  acquireCalls 1 .backup ++ acquireCalls 2 .all ++
    [(2, .open_), (2, .flock), (2, .read), (2, .close false)]

/-- Two processes with different exec-ids hold one lock file, and a process that failed has
a file locked. -/
theorem lock_unsafe :
    Start (emptyState Nat) ∧
    (∃ s, run numberIds (emptyState Nat) removedCalls = some s ∧ Holding (s.procs 2) .archive ∧
      Holding (s.procs 3) .archive ∧ numberIds.execId 2 ≠ numberIds.execId 3) ∧
    ∃ s, run numberIds (emptyState Nat) bothCalls = some s ∧
      (∃ left, s.procs 2 = .failed left) ∧ s.locked 1 = some 2 := by
  refine ⟨emptyState_start _, ⟨_, rfl, ⟨_, List.mem_cons_self⟩, ⟨_, List.mem_cons_self⟩, by decide⟩,
    ⟨_, rfl, ⟨_, rfl⟩, rfl⟩⟩

/-- The first two processes have one exec-id. -/
def groupIds : Ids (Fin 3) := ⟨Fin.val, fun p => fmtUInt (p.val / 2)⟩

/-- The file is there, and locked by another process. -/
def sharedCalls (p : Fin 3) : List (Fin 3 × Event) :=
  [(p, .lockAcquire .archive), (p, .open_), (p, .flock), (p, .read), (p, .close false)]

def releaseCalls (p : Fin 3) : List (Fin 3 × Event) :=
  [(p, .lockRelease), (p, .remove), (p, .closeLock)]

/-- The second process has the file by exec-id. The third cannot get it until both have released it. -/
def groupCalls : List (Fin 3 × Event) :=
  acquireCalls 0 .archive ++ sharedCalls 1 ++ sharedCalls 2 ++ [(1, .lockRelease)] ++ releaseCalls 0 ++
    acquireCalls 2 .archive

theorem noneCloses {P : Type} {ids : Ids P} {s : State P} (none : ∀ q file, ¬ Closing (s.procs q) file)
    (p : P) (got : Got) (rest : List LockFile) : NoneCloses ids s p got rest :=
  fun _ file _ q closing => absurd closing (none q file)

theorem careful_cons {P : Type} [DecidableEq P] {ids : Ids P} {s s' : State P} {p : P} {event : Event}
    {calls : List (P × Event)} (first : Careful ids s p event) (next : step ids s p event = some s')
    (rest : CarefulRun ids s' calls) : CarefulRun ids s ((p, event) :: calls) := by
  refine ⟨first, fun s'' ran => ?_⟩
  rw [next] at ran
  cases ran
  exact rest

theorem forall_three {holds : Fin 3 → Prop} (first : holds 0) (second : holds 1) (third : holds 2) :
    ∀ q, holds q
  | 0 => first
  | 1 => second
  | 2 => third

theorem noneClosing {l : Local} (none : ∀ file i todo, l ≠ .closing file i todo) :
    ∀ file, ¬ Closing l file := by
  rintro file ⟨i, todo, equal⟩
  exact none file i todo equal

theorem groupCalls_careful : CarefulRun groupIds (emptyState (Fin 3)) groupCalls := by
  -- the first process gets the lock
  refine careful_cons trivial rfl (careful_cons trivial rfl (careful_cons (fun _ => rfl) rfl ?_))
  refine careful_cons (noneCloses ?_ _ _ _) rfl ?_
  · exact forall_three (noneClosing nofun) (noneClosing nofun) (noneClosing nofun)
  -- the second one reads its exec-id
  refine careful_cons trivial rfl (careful_cons trivial rfl (careful_cons (fun _ => rfl) rfl ?_))
  refine careful_cons trivial rfl (careful_cons ?_ rfl ?_)
  · refine ⟨⟨rfl, rfl, 0, List.mem_cons_self⟩, noneCloses ?_ _ _ _⟩
    exact forall_three (noneClosing nofun) (noneClosing nofun) (noneClosing nofun)
  -- the third one another
  refine careful_cons trivial rfl (careful_cons trivial rfl (careful_cons (fun _ => rfl) rfl ?_))
  refine careful_cons trivial rfl (careful_cons ?_ rfl ?_)
  · exact fun _ _ _ => List.not_mem_nil
  -- both release it
  refine careful_cons trivial rfl (careful_cons trivial rfl (careful_cons ?_ rfl ?_))
  · exact forall_three (by decide) (by decide) (by decide)
  refine careful_cons trivial rfl ?_
  refine careful_cons trivial rfl (careful_cons trivial rfl (careful_cons (fun _ => rfl) rfl ?_))
  refine careful_cons (noneCloses ?_ _ _ _) rfl trivial
  exact forall_three (noneClosing nofun) (noneClosing nofun) (noneClosing nofun)

theorem lock_safe_group :
    Start (emptyState (Fin 3)) ∧ ∃ s, run groupIds (emptyState (Fin 3)) groupCalls = some s ∧
      Safe groupIds s := by
  refine ⟨emptyState_start _, _, rfl, ?_⟩
  refine lock_safe ?_ (emptyState_start _) groupCalls groupCalls_careful rfl
  intro p mem
  exact absurd (isDigit_of_mem_fmtUInt mem) (by decide)

end Runs

end Lock
