import Backrest.PushList
import Backrest.WalRange

/-!
# The queue of segments to get

The queue is cut down to the segments that are wanted next, and the rest of these is
fetched. A status file is kept for a segment that was in the queue, although that segment
need not be wanted.
-/

namespace QueueNeed

open Text BackupCommon FileTree Interleave HexText ArchiveAsync PushList WalSegment WalRange

/-- The names in the `in` directory of the spool. -/
def inNames (host : Host) : List Str := host.spool.children [storageSpoolArchiveIn]

/-- The `in` directory is there and holds files. -/
structure QueueReady (host : Host) : Prop where
  dir : host.spool.node [storageSpoolArchiveIn] = some .dir
  files : ∀ file, host.spool.node [storageSpoolArchiveIn, file] ≠ some .dir

def walSegmentFirst (walSegment : Str) (found : Bool) (walSegmentSize pgVersion : Nat) : Str :=
  if found then walSegmentNext walSegment walSegmentSize pgVersion else walSegment

def wanted (walSegment : Str) (found : Bool) (queueSize walSegmentSize pgVersion : Nat) : List Str :=
  walSegmentRange (walSegmentFirst walSegment found walSegmentSize pgVersion) walSegmentSize
    pgVersion (max 2 (queueSize / walSegmentSize))

/-- The queue holds wanted segments and their status files, and the result is the rest. -/
structure Settled (host : Host) (ideal result : List Str) : Prop where
  left : ∀ file ∈ inNames host, file ∈ ideal ∨
    ∃ segment ∈ ideal, file = segment ++ statusExtOk ∧ segment ∈ inNames host
  apart : ∀ segment ∈ result, segment ∉ inNames host
  whole : ∀ segment, segment ∈ ideal ↔
    segment ∈ result ∨ segment ∈ inNames host ∧ walSegmentRegExp segment = true

/-! ## One pass over the queue -/

section Pass

variable {idealQueue actualQueue : List Str}

def isRemoved (idealQueue actualQueue : List Str) (file : Str) : Bool :=
  !idealQueue.contains file &&
    (!strEndsWith file statusExtOk || !actualQueue.contains (strCut file statusExtOk))

/-- The names of the queue that are removed are gone, and nothing else is. -/
def Cut (host : Host) (gone : Str → Prop) (host' : Host) : Prop :=
  ∀ file, (gone file → host'.spool.node [storageSpoolArchiveIn, file] = none) ∧
    (¬ gone file → host'.spool.node [storageSpoolArchiveIn, file] =
      host.spool.node [storageSpoolArchiveIn, file])

theorem run_keepQueueAdd {host : Host} {file content : Str} (keepQueue : List Str)
    (isFile : host.spool.node [storageSpoolArchiveIn, file] = some (.file content)) :
    ∃ host', (keepQueueAdd idealQueue actualQueue keepQueue file).run handle host =
        (.ok (keepQueue ++ [file].filter (· ∈ idealQueue)), host') ∧
      Cut host (fun name => name = file ∧ isRemoved idealQueue actualQueue name = true) host' := by
  rw [keepQueueAdd]
  by_cases ideal : file ∈ idealQueue
  · refine ⟨host, ?_, fun name => ⟨?_, fun _ => rfl⟩⟩
    · rw [if_pos ideal, List.filter_singleton, decide_eq_true ideal]
      rfl
    · rintro ⟨rfl, removed⟩
      simp [isRemoved, ideal] at removed
  · rw [if_neg ideal, List.filter_singleton, decide_eq_false ideal]
    by_cases removes : (!strEndsWith file statusExtOk ||
        !actualQueue.contains (strCut file statusExtOk)) = true
    · refine ⟨{ host with spool := host.spool.remove [storageSpoolArchiveIn, file] }, ?_,
        fun name => ⟨?_, fun kept => node_remove_of_ne fun same => kept ⟨?_, ?_⟩⟩⟩
      · rw [if_pos removes, run_bind_of_ok (run_storageRemove_file isFile true)]
        simp
      · rintro ⟨rfl, -⟩
        exact node_remove.trans (if_pos rfl)
      · simpa using same
      · have equal : name = file := by simpa using same
        rw [equal, isRemoved, removes]
        simp [ideal]
    · refine ⟨host, ?_, fun name => ⟨?_, fun _ => rfl⟩⟩
      · rw [if_neg removes]
        simp
      · rintro ⟨rfl, removed⟩
        rw [isRemoved, Bool.and_eq_true] at removed
        exact absurd removed.2 removes

theorem run_keepQueue {names : List Str} {host : Host} (keepQueue : List Str)
    (nodup : names.Nodup)
    (files : ∀ file ∈ names, ∃ content,
      host.spool.node [storageSpoolArchiveIn, file] = some (.file content)) :
    ∃ host', (names.foldlM (keepQueueAdd idealQueue actualQueue) keepQueue).run handle host =
        (.ok (keepQueue ++ names.filter (· ∈ idealQueue)), host') ∧
      Cut host (fun name => name ∈ names ∧ isRemoved idealQueue actualQueue name = true) host' := by
  induction names generalizing host keepQueue with
  | nil => exact ⟨host, by simp, fun name => ⟨by simp, fun _ => rfl⟩⟩
  | cons file names ih =>
    obtain ⟨fresh, nodup⟩ := List.nodup_cons.mp nodup
    obtain ⟨content, isFile⟩ := files file List.mem_cons_self
    obtain ⟨host₁, run, cut⟩ := @run_keepQueueAdd idealQueue actualQueue _ _ _
      keepQueue isFile
    have same : ∀ name ∈ names, host₁.spool.node [storageSpoolArchiveIn, name] =
        host.spool.node [storageSpoolArchiveIn, name] := by
      intro name mem
      exact (cut name).2 fun gone => fresh (gone.1 ▸ mem)
    obtain ⟨host', runs, cuts⟩ := @ih host₁
      (keepQueue ++ [file].filter (· ∈ idealQueue)) nodup (fun name mem => by
        rw [same name mem]
        exact files name (List.mem_cons_of_mem _ mem))
    refine ⟨host', ?_, fun name => ⟨?_, fun kept => ?_⟩⟩
    · rw [List.foldlM_cons, run_bind_of_ok run, runs, List.append_assoc, ← List.filter_append,
        List.singleton_append]
    · rintro ⟨mem, removed⟩
      rcases List.mem_cons.mp mem with rfl | mem
      · rw [(cuts name).2 fun gone => fresh gone.1]
        exact (cut name).1 ⟨rfl, removed⟩
      · exact (cuts name).1 ⟨mem, removed⟩
    · rw [(cuts name).2 fun gone => kept ⟨List.mem_cons_of_mem _ gone.1, gone.2⟩]
      exact (cut name).2 fun gone => kept ⟨gone.1 ▸ List.mem_cons_self, gone.2⟩

theorem mem_inNames {host : Host} {file : Str} :
    file ∈ inNames host ↔ (host.spool.node [storageSpoolArchiveIn, file]).isSome :=
  mem_children

/-- The total as the code computes it. -/
def queueTotal (queueSize walSegmentSize : Nat) : Nat :=
  if queueSize / walSegmentSize % 2 ^ 32 < 2 then 2 else queueSize / walSegmentSize % 2 ^ 32

def idealList (walSegment : Str) (found : Bool) (queueSize walSegmentSize pgVersion : Nat) :
    List Str :=
  strLstSort (walSegmentRange (walSegmentFirst walSegment found walSegmentSize pgVersion)
    walSegmentSize pgVersion (queueTotal queueSize walSegmentSize)) .asc

/-- What is left in the queue, and what is needed. -/
theorem run_queueNeed {host : Host} (ready : QueueReady host) (walSegment : Str) (found : Bool)
    (queueSize walSegmentSize pgVersion : Nat) :
    ∃ host' result, (queueNeed walSegment found queueSize walSegmentSize pgVersion).run handle host =
        (.ok result, host') ∧
      (∀ file, file ∈ inNames host' ↔ file ∈ inNames host ∧
        (file ∈ idealList walSegment found queueSize walSegmentSize pgVersion ∨
          ∃ segment ∈ inNames host, file = segment ++ statusExtOk)) ∧
      ∀ segment, segment ∈ result ↔
        segment ∈ idealList walSegment found queueSize walSegmentSize pgVersion ∧
          segment ∉ inNames host := by
  have listed : (storageList storageSpoolArchiveIn).run handle host = (.ok (inNames host), host) := by
    rw [storageList, run_bind_of_ok (run_ask_op (.list storageSpoolArchiveIn) host), handle]
    dsimp only
    rw [listing, ready.dir]
    rfl
  have nodup : (strLstSort (inNames host) .asc).Nodup :=
    (strLstSort_perm _ _).nodup_iff.mpr children_nodup
  have files : ∀ file ∈ strLstSort (inNames host) .asc, ∃ content,
      host.spool.node [storageSpoolArchiveIn, file] = some (.file content) := by
    intro file mem
    rw [mem_strLstSort, mem_inNames] at mem
    have notDir := ready.files file
    cases entry : host.spool.node [storageSpoolArchiveIn, file] with
    | none =>
      rw [entry] at mem
      cases mem
    | some n =>
      cases n with
      | dir => exact absurd entry notDir
      | file content => exact ⟨content, rfl⟩
  obtain ⟨host', run, cut⟩ := @run_keepQueue
    (idealList walSegment found queueSize walSegmentSize pgVersion)
    (strLstSort (inNames host) .asc) _ _ [] nodup files
  refine ⟨host', (idealList walSegment found queueSize walSegmentSize pgVersion).filter (fun file =>
    !([] ++ (strLstSort (inNames host) .asc).filter (· ∈ idealList walSegment found queueSize
      walSegmentSize pgVersion)).contains file), ?_, fun file => ?_, fun segment => ?_⟩
  · rw [queueNeed]
    dsimp only
    rw [run_bind_of_ok listed]
    exact (run_bind_of_ok run).trans rfl
  · have kept : isRemoved (idealList walSegment found queueSize walSegmentSize pgVersion)
        (strLstSort (inNames host) .asc) file = false ↔
        file ∈ idealList walSegment found queueSize walSegmentSize pgVersion ∨
          ∃ segment ∈ inNames host, file = segment ++ statusExtOk := by
      rw [isRemoved, Bool.and_eq_false_iff, Bool.or_eq_false_iff, Bool.not_eq_false',
        Bool.not_eq_false', Bool.not_eq_false', List.contains_iff_mem, List.contains_iff_mem,
        mem_strLstSort]
      refine or_congr Iff.rfl ⟨fun both => ⟨_, both.2, (strCut_append both.1).symm⟩, ?_⟩
      rintro ⟨segment, mem, rfl⟩
      rw [strCut_of_append]
      exact ⟨strEndsWith_append _ _, mem⟩
    rw [← kept, mem_inNames, mem_inNames]
    have node := cut file
    dsimp only at node
    rw [mem_strLstSort, mem_inNames] at node
    cases removes : isRemoved (idealList walSegment found queueSize walSegmentSize pgVersion)
        (strLstSort (inNames host) .asc) file with
    | false =>
      rw [node.2 fun gone => by rw [removes] at gone; cases gone.2]
      exact ⟨fun there => ⟨there, rfl⟩, And.left⟩
    | true =>
      refine ⟨fun there => ?_, fun both => by cases both.2⟩
      by_cases before : (host.spool.node [storageSpoolArchiveIn, file]).isSome = true
      · rw [node.1 ⟨before, removes⟩] at there
        cases there
      · rw [node.2 fun gone => before gone.1] at there
        exact absurd there before
  · rw [List.mem_filter, Bool.not_eq_true', ← Bool.not_eq_true, List.contains_iff_mem,
      List.nil_append, List.mem_filter, mem_strLstSort, decide_eq_true_iff]
    refine and_congr_right fun ideal => ?_
    rw [not_and_or]
    exact or_iff_left (not_not_intro ideal)

end Pass

/-! ## Segments come round late -/

section Round

variable {pgVersion walSegmentSize : Nat}

theorem hexDigit_lt {c : Char} {digit : Nat} (isDigit : hexDigit c = some digit) : digit < 16 := by
  have bound : ∀ {a b : Char}, a ≤ b → a.toNat ≤ b.toNat := fun le => UInt32.le_iff_toNat_le.mp le
  unfold hexDigit BackupCommon.isDigit at isDigit
  split at isDigit
  · rename_i inside
    rw [Bool.and_eq_true, decide_eq_true_eq, decide_eq_true_eq] at inside
    have high : c.toNat ≤ 57 := bound inside.2
    cases isDigit
    change c.toNat - 48 < 16
    omega
  · split at isDigit
    · rename_i inside
      have high : c.toNat ≤ 70 := bound inside.2
      cases isDigit
      change c.toNat - 65 + 10 < 16
      omega
    · split at isDigit
      · rename_i inside
        have high : c.toNat ≤ 102 := bound inside.2
        cases isDigit
        change c.toNat - 97 + 10 < 16
        omega
      · cases isDigit

theorem strtolHex_lt {s : Str} (value : Nat) : strtolHex s value < (value + 1) * 16 ^ s.length := by
  induction s generalizing value with
  | nil =>
    rw [strtolHex, List.length_nil]
    omega
  | cons c s ih =>
    rw [strtolHex, List.length_cons, Nat.pow_succ, ← Nat.mul_assoc, Nat.mul_right_comm]
    cases isDigit : hexDigit c with
    | none =>
      have front : value + 1 ≤ (value + 1) * 16 := Nat.le_mul_of_pos_right _ (by decide)
      exact front.trans (Nat.le_mul_of_pos_right _ (Nat.pow_pos (by decide)))
    | some digit =>
      have small := hexDigit_lt isDigit
      refine (ih _).trans_le (Nat.mul_le_mul_right _ ?_)
      omega

theorem read_part_lt (s : Str) (start : Nat) : strtolHex (strSubN s start 8) 0 < 2 ^ 32 := by
  refine (strtolHex_lt 0).trans_le ?_
  rw [Nat.zero_add, Nat.one_mul]
  exact (Nat.pow_le_pow_right (by decide) (List.length_take_le _ _)).trans (by decide)

theorem walSegmentNext_eq (s : Str) : ∃ timeline major minor,
    walSegmentNext s walSegmentSize pgVersion = walName timeline major minor ∧
      timeline < 2 ^ 32 ∧ major < 2 ^ 32 ∧ minor < 2 ^ 32 := by
  have fits := @partsNext_lt walSegmentSize pgVersion _ (strtolHex (strSubN s 16 8) 0)
    (read_part_lt s 8)
  exact ⟨_, _, _, rfl, read_part_lt s 0, fits.1, fits.2⟩

theorem partsNext_cases (walSegmentSize pgVersion major minor : Nat) :
    partsNext walSegmentSize pgVersion major minor = ((major + 1) % 2 ^ 32, 0) ∨
      partsNext walSegmentSize pgVersion major minor = (major, (minor + 1) % 2 ^ 32) ∧
        (minor + 1) % 2 ^ 32 ≤ (2 ^ 32 - 1) / walSegmentSize := by
  unfold partsNext
  dsimp only
  by_cases carried : (minor + 1) % 2 ^ 32 > (2 ^ 32 - 1) / walSegmentSize
  · rw [if_pos carried]
    exact .inl (if_neg fun both => absurd (show (0 : Nat) = 0xFF from both.1) (by decide))
  · rw [if_neg carried]
    dsimp only
    by_cases skipped : (minor + 1) % 2 ^ 32 = 0xFF ∧ pgVersion < 90300
    · exact .inl (if_pos skipped)
    · exact .inr ⟨if_neg skipped, Nat.le_of_not_gt carried⟩

def Closed (pgVersion walSegmentSize : Nat) (list : List Str) : Prop :=
  ∀ s ∈ list, walSegmentNext s walSegmentSize pgVersion ∈ list

variable {list : List Str} {timeline major : Nat}

/-- The minor numbers grow until the next major number. -/
theorem Closed.major_next (closed : Closed pgVersion walSegmentSize list) (two : 2 ≤ walSegmentSize)
    (timelineFits : timeline < 2 ^ 32) (majorFits : major < 2 ^ 32) {minor : Nat}
    (minorFits : minor < 2 ^ 32) (mem : walName timeline major minor ∈ list) :
    ∃ minor' < 2 ^ 32, walName timeline ((major + 1) % 2 ^ 32) minor' ∈ list := by
  have half : (2 ^ 32 - 1) / walSegmentSize < 2 ^ 31 :=
    (Nat.div_le_div_left two (by decide)).trans_lt (by decide)
  -- the greatest minor number wraps, so it comes first
  induction room : (if minor = 2 ^ 32 - 1 then 2 ^ 32 else 2 ^ 32 - 1 - minor)
    using Nat.strong_induction_on generalizing minor with
  | _ room ih =>
    have next := closed _ mem
    rw [walSegmentNext_walName timelineFits majorFits minorFits] at next
    rcases partsNext_cases walSegmentSize pgVersion major minor with same | ⟨same, low⟩
    · rw [same] at next
      exact ⟨0, by decide, next⟩
    · rw [same] at next
      refine ih _ ?_ (by omega) next rfl
      rw [← room, if_neg (by omega)]
      split <;> omega

theorem Closed.majors (closed : Closed pgVersion walSegmentSize list) (two : 2 ≤ walSegmentSize)
    (timelineFits : timeline < 2 ^ 32) (majorFits : major < 2 ^ 32) {minor : Nat}
    (minorFits : minor < 2 ^ 32) (mem : walName timeline major minor ∈ list) (count : Nat) :
    ∃ minor' < 2 ^ 32, walName timeline ((major + count) % 2 ^ 32) minor' ∈ list := by
  induction count with
  | zero => exact ⟨minor, minorFits, by rwa [Nat.add_zero, Nat.mod_eq_of_lt majorFits]⟩
  | succ count ih =>
    obtain ⟨minor', fits, mem⟩ := ih
    obtain ⟨minor'', fits, mem⟩ := closed.major_next two timelineFits (Nat.mod_lt _ (by decide)) fits mem
    refine ⟨minor'', fits, ?_⟩
    rwa [Nat.mod_add_mod, Nat.add_assoc] at mem

/-- With segments of one byte the minor numbers never stop growing. -/
theorem Closed.minors (closed : Closed pgVersion 1 list) (new : 90300 ≤ pgVersion)
    (timelineFits : timeline < 2 ^ 32) (majorFits : major < 2 ^ 32) {minor : Nat}
    (minorFits : minor < 2 ^ 32) (mem : walName timeline major minor ∈ list) (count : Nat) :
    walName timeline major ((minor + count) % 2 ^ 32) ∈ list := by
  induction count with
  | zero => rwa [Nat.add_zero, Nat.mod_eq_of_lt minorFits]
  | succ count ih =>
    have next := closed _ ih
    have fits : (minor + count) % 2 ^ 32 < 2 ^ 32 := Nat.mod_lt _ (by decide)
    have inside : ¬ ((minor + count) % 2 ^ 32 + 1) % 2 ^ 32 > (2 ^ 32 - 1) / 1 := by omega
    rw [walSegmentNext_walName timelineFits majorFits fits, partsNext, if_neg inside] at next
    dsimp only at next
    rwa [if_neg fun both => absurd both.2 (by omega), Nat.mod_add_mod, Nat.add_assoc] at next

theorem length_of_reads {read : Str → Nat} {total : Nat}
    (all : ∀ n < total, ∃ s ∈ list, read s = n) : total ≤ list.length := by
  have within : List.range total ⊆ list.map read := by
    intro n mem
    obtain ⟨s, isMem, rfl⟩ := all n (List.mem_range.mp mem)
    exact List.mem_map_of_mem isMem
  have atMost := (List.subperm_of_subset List.nodup_range within).length_le
  rwa [List.length_range, List.length_map] at atMost

/-- A list with a next segment for all of its segments is as long as the numbers allow. -/
theorem Closed.length (h : Segmented pgVersion walSegmentSize)
    (closed : Closed pgVersion walSegmentSize list) {s : Str} (some : s ∈ list) :
    2 ^ 32 ≤ list.length := by
  obtain ⟨timeline, major, minor, same, timelineFits, majorFits, minorFits⟩ :=
    @walSegmentNext_eq pgVersion walSegmentSize s
  have mem := closed s some
  rw [same] at mem
  by_cases one : walSegmentSize = 1
  · subst one
    have new : 90300 ≤ pgVersion := by
      by_contra old
      exact absurd (h.fixed (by omega)) (by decide)
    refine @length_of_reads _ (fun s => strtolHex (strSubN s 16 8) 0) _ fun n less => ?_
    refine ⟨_, closed.minors new timelineFits majorFits minorFits mem (n + 2 ^ 32 - minor), ?_⟩
    have reached : (minor + (n + 2 ^ 32 - minor)) % 2 ^ 32 = n := by omega
    rw [reached, walName_minor timelineFits majorFits less, strtolHex_fmtHex8 less]
  · have two : 2 ≤ walSegmentSize := by
      have pos := h.size_pos
      omega
    refine @length_of_reads _ (fun s => strtolHex (strSubN s 8 8) 0) _ fun n less => ?_
    obtain ⟨minor', -, isMem⟩ := closed.majors two timelineFits majorFits minorFits mem
      (n + 2 ^ 32 - major)
    have reached : (major + (n + 2 ^ 32 - major)) % 2 ^ 32 = n := by omega
    rw [reached] at isMem
    exact ⟨_, isMem, by rw [walName_major timelineFits less, strtolHex_fmtHex8 less]⟩

theorem walSegmentRange_succ (s : Str) (count : Nat) :
    walSegmentRange s walSegmentSize pgVersion (count + 1) = s ::
      (walSegmentRange s walSegmentSize pgVersion count).map
        (walSegmentNext · walSegmentSize pgVersion) := by
  induction count generalizing s with
  | zero => rfl
  | succ count ih =>
    rw [walSegmentRange, ih]
    rfl

theorem length_walSegmentRange (s : Str) (count : Nat) :
    (walSegmentRange s walSegmentSize pgVersion count).length = count := by
  induction count generalizing s with
  | zero => rfl
  | succ count ih => rw [walSegmentRange, List.length_cons, ih]

theorem walSegmentRange_mono {s r : Str} {count more : Nat} (le : count ≤ more)
    (mem : r ∈ walSegmentRange s walSegmentSize pgVersion count) :
    r ∈ walSegmentRange s walSegmentSize pgVersion more := by
  induction count generalizing s more with
  | zero => cases mem
  | succ count ih =>
    obtain ⟨more, rfl⟩ : ∃ k, more = k + 1 := ⟨more - 1, by omega⟩
    rw [walSegmentRange, List.mem_cons] at mem ⊢
    exact mem.imp_right (ih (by omega))

theorem walSegmentRange_misses (h : Segmented pgVersion walSegmentSize) (s : Str)
    {count more : Nat} (some : 0 < count) (short : count < 2 ^ 32) (less : count < more) :
    ¬ ∀ r ∈ walSegmentRange s walSegmentSize pgVersion more,
      r ∈ walSegmentRange s walSegmentSize pgVersion count := by
  intro within
  have closed : Closed pgVersion walSegmentSize (walSegmentRange s walSegmentSize pgVersion count) := by
    intro r mem
    apply within
    apply walSegmentRange_mono less
    rw [walSegmentRange_succ]
    exact List.mem_cons_of_mem _ (List.mem_map_of_mem mem)
  obtain ⟨count, rfl⟩ : ∃ k, count = k + 1 := ⟨count - 1, by omega⟩
  have long := closed.length h (s := s) (by rw [walSegmentRange]; exact List.mem_cons_self)
  rw [length_walSegmentRange] at long
  omega

end Round

/-! ## When the queue is settled -/

section Settling

variable {walSegment : Str} {found : Bool} {queueSize walSegmentSize pgVersion : Nat}

theorem isWalChar_of_mem_hexDigits {width n : Nat} {c : Char} (mem : c ∈ hexDigits width n) :
    isWalChar c = true := by
  have each : ∀ d < 16, isWalChar (hexChar d) = true := by decide
  induction width generalizing n with
  | zero => cases mem
  | succ width ih =>
    rcases List.mem_append.mp mem with mem | mem
    · exact ih mem
    · rw [List.mem_singleton.mp mem]
      exact each _ (Nat.mod_lt _ (by decide))

theorem walSegmentRegExp_next (s : Str) :
    walSegmentRegExp (walSegmentNext s walSegmentSize pgVersion) = true := by
  obtain ⟨timeline, major, minor, same, timelineFits, majorFits, minorFits⟩ :=
    @walSegmentNext_eq pgVersion walSegmentSize s
  have all : ∀ c ∈ walName timeline major minor, isWalChar c = true := by
    rw [walName, fmtHex8_eq timelineFits, fmtHex8_eq majorFits, fmtHex8_eq minorFits]
    intro c mem
    rcases List.mem_append.mp mem with mem | mem
    · exact (List.mem_append.mp mem).elim isWalChar_of_mem_hexDigits isWalChar_of_mem_hexDigits
    · exact isWalChar_of_mem_hexDigits mem
  have matched := @matchN_of_all isWalChar _ _ []
    (length_walName timelineFits majorFits minorFits) all
  rw [List.append_nil] at matched
  rw [same, walSegmentRegExp, matched]
  rfl

theorem walSegmentRegExp_range {s r : Str} {count : Nat} (first : walSegmentRegExp s = true)
    (mem : r ∈ walSegmentRange s walSegmentSize pgVersion count) : walSegmentRegExp r = true := by
  induction count generalizing s with
  | zero => cases mem
  | succ count ih =>
    rw [walSegmentRange, List.mem_cons] at mem
    rcases mem with rfl | mem
    · exact first
    · exact ih (walSegmentRegExp_next s) mem

theorem walSegmentRegExp_wanted (isSegment : walSegmentRegExp walSegment = true) {s : Str}
    (mem : s ∈ wanted walSegment found queueSize walSegmentSize pgVersion) :
    walSegmentRegExp s = true := by
  refine walSegmentRegExp_range ?_ mem
  rw [walSegmentFirst]
  split
  · exact walSegmentRegExp_next _
  · exact isSegment

theorem not_walSegmentRegExp_ok (s : Str) : ¬ walSegmentRegExp (s ++ statusExtOk) = true := by
  intro matched
  obtain ⟨name, same, -, all⟩ := matchN_some (of_decide_eq_true matched)
  rw [List.append_nil] at same
  have dot := all '.' (same ▸ List.mem_append_right _ (by decide))
  exact absurd dot (by decide)

theorem mem_idealList (small : queueSize / walSegmentSize < 2 ^ 32) {s : Str} :
    s ∈ idealList walSegment found queueSize walSegmentSize pgVersion ↔
      s ∈ wanted walSegment found queueSize walSegmentSize pgVersion := by
  have total : queueTotal queueSize walSegmentSize = max 2 (queueSize / walSegmentSize) := by
    rw [queueTotal, Nat.mod_eq_of_lt small]
    split <;> omega
  rw [idealList, mem_strLstSort, total]
  rfl

/-- The queue is left with wanted segments and their status files, and the rest is returned,
just when the total has 32 bits and no status file stands next to a segment that is not wanted. -/
theorem queueNeed_settled_iff {host : Host} (h : Segmented pgVersion walSegmentSize)
    (ready : QueueReady host) (isSegment : walSegmentRegExp walSegment = true) :
    (∃ result host', (queueNeed walSegment found queueSize walSegmentSize pgVersion).run handle
        host = (.ok result, host') ∧
      Settled host' (wanted walSegment found queueSize walSegmentSize pgVersion) result) ↔
    queueSize / walSegmentSize < 2 ^ 32 ∧
      ∀ segment ∈ inNames host, segment ++ statusExtOk ∈ inNames host →
        segment ∈ wanted walSegment found queueSize walSegmentSize pgVersion := by
  obtain ⟨host', result, run, left, needed⟩ := run_queueNeed ready walSegment found queueSize
    walSegmentSize pgVersion
  constructor
  · rintro ⟨_, _, again, settled⟩
    cases run.symm.trans again
    have small : queueSize / walSegmentSize < 2 ^ 32 := by
      by_contra large
      have short : 0 < queueTotal queueSize walSegmentSize ∧
          queueTotal queueSize walSegmentSize < 2 ^ 32 := by
        rw [queueTotal]
        split <;> omega
      refine walSegmentRange_misses h (walSegmentFirst walSegment found walSegmentSize pgVersion)
        short.1 short.2 (show _ < max 2 (queueSize / walSegmentSize) by omega) fun r mem => ?_
      have isIdeal : r ∈ idealList walSegment found queueSize walSegmentSize pgVersion := by
        rcases (settled.whole r).mp mem with mem | ⟨mem, matched⟩
        · exact ((needed r).mp mem).1
        · rcases ((left r).mp mem).2 with isIdeal | ⟨segment, -, rfl⟩
          · exact isIdeal
          · exact absurd matched (not_walSegmentRegExp_ok _)
      rwa [idealList, mem_strLstSort] at isIdeal
    refine ⟨small, fun segment there ok => ?_⟩
    rcases settled.left _ ((left _).mpr ⟨ok, .inr ⟨segment, there, rfl⟩⟩) with
      isWanted | ⟨other, isWanted, same, -⟩
    · exact absurd (walSegmentRegExp_wanted isSegment isWanted) (not_walSegmentRegExp_ok _)
    · rwa [List.append_cancel_right same]
  · rintro ⟨small, paired⟩
    have ideal := fun s => @mem_idealList walSegment found queueSize walSegmentSize
      pgVersion small s
    refine ⟨result, host', run, fun file mem => ?_, fun segment mem there => ?_, fun segment => ?_⟩
    · obtain ⟨there, isIdeal | ⟨segment, isThere, rfl⟩⟩ := (left file).mp mem
      · exact .inl ((ideal file).mp isIdeal)
      · have isWanted := paired segment isThere there
        exact .inr ⟨segment, isWanted, rfl, (left segment).mpr ⟨isThere, .inl ((ideal _).mpr isWanted)⟩⟩
    · exact ((needed segment).mp mem).2 ((left segment).mp there).1
    · constructor
      · intro isWanted
        by_cases there : segment ∈ inNames host
        · exact .inr ⟨(left segment).mpr ⟨there, .inl ((ideal _).mpr isWanted)⟩,
            walSegmentRegExp_wanted isSegment isWanted⟩
        · exact .inl ((needed segment).mpr ⟨(ideal _).mpr isWanted, there⟩)
      · rintro (mem | ⟨mem, matched⟩)
        · exact (ideal _).mp ((needed segment).mp mem).1
        · rcases ((left segment).mp mem).2 with isIdeal | ⟨other, -, rfl⟩
          · exact (ideal _).mp isIdeal
          · exact absurd matched (not_walSegmentRegExp_ok _)

end Settling

/-! ## A status file of an older segment -/

/-- A spool with these files in its `in` directory. -/
def queueHost (names : List Str) : Host where
  spool := ⟨([storageSpoolArchiveIn], .dir) ::
    names.map (fun name => ([storageSpoolArchiveIn, name], .file []))⟩
  pg := ⟨[]⟩

theorem queueHost_ready (names : List Str) : QueueReady (queueHost names) where
  dir := by simp [queueHost, FileTree.Tree.node]
  files := by
    intro file there
    have entry := mem_of_lookup there
    simp [queueHost] at entry

/-- Two of the four segments that are wanted are there, one with its status file, and an older one
is. -/
theorem queueNeed_settled_iff_found : ∃ names, names = ["000000010000000100000001".toList,
      "000000010000000100000002".toList, "000000010000000100000002.ok".toList,
      "000000010000000100000004".toList] ∧
    ∃ result host', (queueNeed "000000010000000100000001".toList true (2 ^ 26) (2 ^ 24) 140000).run
        handle (queueHost names) = (.ok result, host') ∧
      Settled host' (wanted "000000010000000100000001".toList true (2 ^ 26) (2 ^ 24) 140000) result :=
  ⟨_, rfl, (queueNeed_settled_iff ⟨by decide, by decide, by decide⟩ (queueHost_ready _)
    (by decide)).mpr ⟨by decide, by decide +kernel⟩⟩

/-- The old segment is removed and its status file is kept. -/
theorem queueNeed_stale_ok :
    inNames ((queueNeed "000000010000000100000005".toList false (2 ^ 25) (2 ^ 24) 140000).run handle
        (queueHost ["000000010000000100000001".toList, "000000010000000100000001.ok".toList])).2 =
      ["000000010000000100000001.ok".toList] ∧
    wanted "000000010000000100000005".toList false (2 ^ 25) (2 ^ 24) 140000 =
      ["000000010000000100000005".toList, "000000010000000100000006".toList] := by
  decide +kernel

end QueueNeed
