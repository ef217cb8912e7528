import Backrest.ExpireFrame

/-!
# What one repository takes from the others

Expire runs the repositories one after another over a shared state. Seen from
one repository, the runs of the others keep its storage, its options and the
clock, and log nothing it expires. What it expires itself is then fixed by its
own list of backups and its own options, except that the time of time-based
retention is read from the options of the default repository.
-/

namespace RepoIsolation

open Text BackupCommon BackupManifest BackupInfo FileTree Effects Repository Expire
open ExpireArchive ExpireCommand ExpireFrame

section Removed

/-- The backups a message says retention removed from the repository. -/
def removes (i : Nat) : LogEvent → List Str
  | .expire _ repoIdx labels => if repoIdx = i then labels else []
  | _ => []

/-- The backups that were removed from the repository. -/
def removed (i : Nat) (log : List LogEvent) : List Str := log.flatMap (removes i)

theorem removed_concat (i : Nat) (log : List LogEvent) (event : LogEvent) :
    removed i (log ++ [event]) = removed i log ++ removes i event := by
  simp [removed]

end Removed

section Aside

/-- A run as the repository `i` sees it. It may change the storage of `i` unless it is the run of
another repository. -/
structure Aside (i : Nat) (apart : Prop) (w w' : World) : Prop where
  now : w'.now = w.now
  repoDefault : w'.config.repoDefault = w.config.repoDefault
  retentionFull : ∀ r, (w'.config.repo r).retentionFull = (w.config.repo r).retentionFull
  option : w'.config.repo i = w.config.repo i
  storage : apart → w'.storage i = w.storage i
  removed : removed i w'.log = removed i w.log

variable {i j : Nat} {apart : Prop} {α β : Type}

theorem Aside.refl (w : World) : Aside i apart w w :=
  ⟨rfl, rfl, fun _ => rfl, rfl, fun _ => rfl, rfl⟩

theorem Aside.trans (a b c : World) (first : Aside i apart a b) (rest : Aside i apart b c) :
    Aside i apart a c :=
  ⟨rest.now.trans first.now, rest.repoDefault.trans first.repoDefault,
    fun r => (rest.retentionFull r).trans (first.retentionFull r), rest.option.trans first.option,
    fun h => (rest.storage h).trans (first.storage h), rest.removed.trans first.removed⟩

theorem aside_logEvent {event : LogEvent} (silent : removes i event = []) :
    Keeps (Aside i apart) (logEvent event) := by
  intro w
  refine ⟨rfl, rfl, fun _ => rfl, rfl, fun _ => rfl, ?_⟩
  change removed i (w.log ++ [event]) = removed i w.log
  rw [removed_concat, silent, List.append_nil]

theorem aside_storageWrite (change : Storage → Storage) :
    Keeps (Aside i (i ≠ j)) (storageWrite j change) := by
  intro w
  change Aside i (i ≠ j) w (w.write j change)
  refine ⟨?_, ?_, ?_, ?_, fun h => write_storage_of_ne h, ?_⟩
  · rw [World.write]
    split <;> rfl
  · rw [write_config]
  · intro r
    rw [write_config]
  · rw [write_config]
  · rw [write_log]

theorem aside_retentionArchiveSet (h : i ≠ j) (value : Nat) :
    Keeps (Aside i (i ≠ j)) (retentionArchiveSet j value) := by
  intro w
  refine ⟨rfl, rfl, ?_, ?_, fun _ => rfl, rfl⟩
  · intro r
    change (if r = j then { w.config.repo j with retentionArchive := some value }
      else w.config.repo r).retentionFull = _
    split
    · rename_i same
      rw [same]
    · rfl
  · change (if i = j then { w.config.repo j with retentionArchive := some value }
      else w.config.repo i) = _
    rw [if_neg h]

/-- Removing leaves aside what it is not about, whichever repository it runs in. -/
theorem aside_removeFrame (i j : Nat) : RemoveFrame (Aside i (i ≠ j)) j where
  refl := Aside.refl
  trans := Aside.trans
  write := fun _ => aside_storageWrite _
  log := fun {event} h => aside_logEvent (by cases event <;> first | rfl | cases h)

/-- Another repository leaves `i` aside in all that it does. -/
theorem aside_frame (h : i ≠ j) : Frame (Aside i (i ≠ j)) j where
  toRemoveFrame := aside_removeFrame i j
  save := aside_storageWrite
  expireLog := fun kind labels => aside_logEvent (by rw [removes, if_neg (Ne.symm h)])
  set := aside_retentionArchiveSet h
  found := fun _ => ⟨rfl, rfl, fun _ => rfl, rfl, fun _ => rfl, rfl⟩

end Aside

section Run
variable {i : Nat}

/-- What repository `i` does up to the end of retention. -/
def retentionRun (i : Nat) : Command (InfoBackup × Nat) := do
  let option ← repoOptionIdx i
  let storage ← storageRepoIdx i
  let info ← infoBackupLoadFileReconstruct storage
  expireRetention info option i

theorem Aside.mono {p q : Prop} {w w' : World} (h : q → p) (aside : Aside i p w w') :
    Aside i q w w' :=
  { aside with storage := fun hq => aside.storage (h hq) }

theorem expireRepoCatch_aside {j : Nat} (h : i ≠ j) (max total : Nat) :
    Keeps (Aside i True) (expireRepoCatch none max total j) :=
  fun w => (expireRepoCatch_keeps (aside_frame h) none max total w).mono (fun _ => h)

theorem repoError_removed {j : Nat} (e : Error) (w : World) :
    removed i (w.log ++ [.repoError j e]) = removed i w.log := by
  rw [removed_concat]
  exact List.append_nil _

theorem exec_expireRepo (max : Nat) (w : World) :
    exec (expireRepo none max i) w = match exec (retentionRun i) w with
      | (.ok state, w') => exec (do
          storageWrite i (infoBackupSaveFile state.1)
          removeExpired state.1 (w.config.repo i) none i) w'
      | (.error e, w') => (.error e, w') := by
  rw [expireRepo, exec_bind_of_ok (exec_repoOptionIdx i w), exec_bind_of_ok (exec_storageRepoIdx i w),
    retentionRun, exec_bind_of_ok (exec_repoOptionIdx i w),
    exec_bind_of_ok (exec_storageRepoIdx i w), ← bind_assoc, exec_bind]
  simp only [expireInfo]
  rcases exec (infoBackupLoadFileReconstruct (w.storage i) >>= fun info =>
    expireRetention info (w.config.repo i) i) w with ⟨_ | _, _⟩ <;> rfl

/-- All that repository `i` removes by retention is removed by the end of its retention. -/
theorem expireRepoCatch_removed (max total : Nat) (w : World) :
    removed i (exec (expireRepoCatch none max total i) w).2.log =
      removed i (exec (retentionRun i) w).2.log := by
  obtain ⟨total', run⟩ := exec_expireRepoCatch none max total i w
  rw [run, exec_expireRepo]
  rcases exec (retentionRun i) w with ⟨e | state, w'⟩
  · exact repoError_removed e w'
  · have rest : Keeps (Aside i (i ≠ i)) (do
        storageWrite i (infoBackupSaveFile state.1)
        removeExpired state.1 (w.config.repo i) none i) :=
      (aside_removeFrame i i).bind (aside_storageWrite _) (fun _ =>
        removeExpired_keeps (aside_removeFrame i i) state.1 _ none)
    have after := (rest w').removed
    dsimp only
    rcases hr : exec (do
        storageWrite i (infoBackupSaveFile state.1)
        removeExpired state.1 (w.config.repo i) none i) w' with ⟨e | u, w''⟩
    · rw [hr] at after
      exact (repoError_removed e w'').trans after
    · rw [hr] at after
      exact after

/-- A loop over the repositories as one run of `i` between runs of others. -/
theorem foldlM_removed {repos : List Nat} (once : repos.Nodup) (h : i ∈ repos) (max total : Nat)
    (w : World) :
    ∃ w₁, Aside i True w w₁ ∧
      removed i (exec (repos.foldlM (expireRepoCatch none max) total) w).2.log =
        removed i (exec (retentionRun i) w₁).2.log := by
  induction repos generalizing w total with
  | nil => simp at h
  | cons j rest ih =>
    rw [List.foldlM_cons]
    obtain ⟨total', first⟩ := exec_expireRepoCatch none max total j w
    rw [exec_bind_of_ok first]
    have others := List.nodup_cons.mp once
    by_cases same : i = j
    · subst same
      refine ⟨w, Aside.refl w, ?_⟩
      have later : Keeps (Aside i True) (rest.foldlM (expireRepoCatch none max) total') :=
        Keeps.foldlM Aside.refl Aside.trans rest (fun total j hj =>
          expireRepoCatch_aside (ne_of_mem_of_not_mem hj others.1).symm max total) total'
      rw [(later _).removed, ← expireRepoCatch_removed max total, first]
    · have mem : i ∈ rest := (List.mem_cons.mp h).resolve_left same
      obtain ⟨w₁, aside, final⟩ := ih others.2 mem total' _
      refine ⟨w₁, ?_, final⟩
      have step := expireRepoCatch_aside same max total w
      rw [first] at step
      exact Aside.trans _ _ _ step aside

/-- What `cmdExpire` removes from `i` by retention is what its own retention removes, from a state
that the other repositories have left aside. -/
theorem cmdExpire_removed {w : World} (set : w.config.set = none) (h : i ∈ repoRange w.config) :
    ∃ w₁, Aside i True w w₁ ∧
      removed i (exec cmdExpire w).2.log = removed i (exec (retentionRun i) w₁).2.log := by
  obtain ⟨w₁, aside, same⟩ := foldlM_removed (repoRange_nodup w.config) h
    ((repoRange w.config).getLast?.getD 0) 0 w
  refine ⟨w₁, aside, ?_⟩
  rw [cmdExpire_state, setCheck, set]
  exact same

end Run

section Twin

/-- Two runs agree on what retention in `i` reads, and have removed the same from it. -/
structure Twin (i k : Nat) (w w' : World) : Prop where
  now : w.now = w'.now
  repoDefault : w.config.repoDefault = k ∧ w'.config.repoDefault = k
  option : w.config.repo i = w'.config.repo i
  removed : removed i w.log = removed i w'.log

variable {i k : Nat}

/-- Two runs stay twins through steps that leave `i` aside. -/
theorem Twin.aside {p q : Prop} {w w' v v' : World} (twin : Twin i k w w') (left : Aside i p w v)
    (right : Aside i q w' v') : Twin i k v v' :=
  ⟨left.now.trans (twin.now.trans right.now.symm),
    ⟨left.repoDefault.trans twin.repoDefault.1, right.repoDefault.trans twin.repoDefault.2⟩,
    left.option.trans (twin.option.trans right.option.symm),
    left.removed.trans (twin.removed.trans right.removed.symm)⟩

theorem twin_storageWrite (change : Storage → Storage) :
    Related (Twin i k) (storageWrite i change) (storageWrite i change) := by
  intro w w' twin
  have write := aside_storageWrite (i := i) (j := i) change
  exact ⟨rfl, twin.aside (write w) (write w')⟩

theorem twin_logEvent (event : LogEvent) :
    Related (Twin i k) (logEvent event) (logEvent event) := by
  intro w w' twin
  refine ⟨rfl, twin.now, twin.repoDefault, twin.option, ?_⟩
  change removed i (w.log ++ [event]) = removed i (w'.log ++ [event])
  rw [removed_concat, removed_concat, twin.removed]

theorem twin_repoOptionIdx : Related (Twin i k) (repoOptionIdx i) (repoOptionIdx i) :=
  fun _ _ twin => ⟨congrArg Except.ok twin.option, twin⟩

theorem twin_orThrow {α : Type} (e : Except Error α) :
    Related (Twin i k) (orThrow e) (orThrow e) := by
  cases e with
  | error e => exact Related.throw e
  | ok a => exact Related.pure a

theorem twin_timeBefore (days : Nat) :
    Related (Twin i k) (timeBefore days) (timeBefore days) :=
  fun _ _ twin => ⟨congrArg (fun now => Except.ok (now - days * secPerDay)) twin.now, twin⟩

/-- The default repository reads the time of retention from itself. -/
theorem twin_retentionFullDefault :
    Related (Twin i i) retentionFullDefault retentionFullDefault := by
  intro w w' twin
  rw [exec_retentionFullDefault, exec_retentionFullDefault, twin.repoDefault.1,
    twin.repoDefault.2, twin.option]
  exact ⟨rfl, twin⟩

theorem twin_retentionArchiveSet (value : Nat) :
    Related (Twin i k) (retentionArchiveSet i value) (retentionArchiveSet i value) := by
  intro w w' twin
  refine ⟨rfl, twin.now, twin.repoDefault, ?_, twin.removed⟩
  change (if i = i then { w.config.repo i with retentionArchive := some value } else _) =
    (if i = i then { w'.config.repo i with retentionArchive := some value } else _)
  rw [if_pos rfl, if_pos rfl, twin.option]

theorem twin_expireLogged (kind : ExpireKind) (state : InfoBackup × Nat) (label : Str) :
    Related (Twin i k) (expireLogged kind i state label) (expireLogged kind i state label) := by
  refine Related.bind (Related.bind (Related.foldlM _ (fun info label _ => ?_) _)
    (fun _ => Related.pure _)) (fun _ => Related.bind (twin_logEvent _) (fun _ => Related.pure _))
  exact Related.bind (twin_storageWrite _) (fun _ =>
    Related.bind (twin_storageWrite _) (fun _ => Related.pure _))

theorem twin_expireDiffBackup (info : InfoBackup) :
    Related (Twin i k) (expireDiffBackup info i) (expireDiffBackup info i) := by
  refine Related.bind twin_repoOptionIdx (fun option => ?_)
  dsimp only
  split
  · exact Related.foldlM _ (fun state label _ => twin_expireLogged .diff state label) _
  · exact Related.pure _

theorem twin_expireFullBackup (info : InfoBackup) :
    Related (Twin i k) (expireFullBackup info i) (expireFullBackup info i) := by
  refine Related.bind twin_repoOptionIdx (fun option => ?_)
  dsimp only
  split
  · exact Related.foldlM _ (fun state label _ => twin_expireLogged .full state label) _
  · exact Related.pure _

theorem twin_expireUntilFirst (keep : Str) (fuel : Nat) (state : InfoBackup × Nat) (num : Nat) :
    Related (Twin i k) (expireUntilFirst keep i fuel state num)
      (expireUntilFirst keep i fuel state num) := by
  induction fuel generalizing state num with
  | zero => exact Related.throw _
  | succ fuel ih =>
    refine Related.bind (twin_orThrow _) (fun first => ?_)
    split
    · exact Related.pure _
    · exact Related.bind (twin_expireLogged .timeBased state _) (fun state => ih state _)

theorem twin_expireTimeBasedBackup (info : InfoBackup) (minTimestamp : Int) :
    Related (Twin i k) (expireTimeBasedBackup info minTimestamp i)
      (expireTimeBasedBackup info minTimestamp i) := by
  rw [expireTimeBasedBackup]
  dsimp only
  split
  · exact Related.pure _
  · refine Related.bind (twin_expireUntilFirst _ _ _ _) (fun result => ?_)
    refine Related.bind twin_repoOptionIdx (fun option => ?_)
    split
    · exact Related.bind (twin_retentionArchiveSet _) (fun _ => Related.pure _)
    · exact Related.pure _

/-- Where the time of retention is not used, or comes from the repository itself. -/
def TimeIsOwn (option : RepoOption) (i k : Nat) : Prop :=
  option.retentionFullType = .count ∨ option.retentionFull = none ∨ i = k

theorem twin_expireRetention {option : RepoOption} (own : TimeIsOwn option i k)
    (info : InfoBackup) :
    Related (Twin i k) (expireRetention info option i) (expireRetention info option i) := by
  refine Related.bind ?_ (fun state => twin_expireDiffBackup state.1)
  rw [expireFullRetention]
  split
  · rename_i time
    split
    · rename_i given
      -- the only case that reads the default repository
      rcases own with count | none | rfl
      · rw [count] at time
        cases time
      · rw [none] at given
        cases given
      · exact Related.bind twin_retentionFullDefault (fun days =>
          Related.bind (twin_timeBefore days) (fun time => twin_expireTimeBasedBackup info time))
    · exact Related.pure _
  · exact twin_expireFullBackup info

end Twin

section Isolation

/-- The list of backups of the repository, as expire loads it. -/
def loadedInfo (i : Nat) (w : World) : Except Error InfoBackup :=
  (exec (infoBackupLoadFileReconstruct (w.storage i)) w).1

theorem loadedInfo_aside {i : Nat} {w w' : World} (aside : Aside i True w w') :
    loadedInfo i w' = loadedInfo i w := by
  obtain ⟨result, events, run, -⟩ := infoBackupLoadFileReconstruct_onlyLogs (w.storage i)
  rw [loadedInfo, loadedInfo, aside.storage trivial, run, run]

/-- Two runs without `--set` that process the repository `i` and agree on its list of backups, its
options and the time. -/
structure Agree (option : RepoOption) (i k : Nat) (w w' : World) : Prop where
  set : w.config.set = none ∧ w'.config.set = none
  processed : i ∈ repoRange w.config ∧ i ∈ repoRange w'.config
  repoDefault : w.config.repoDefault = k ∧ w'.config.repoDefault = k
  now : w.now = w'.now
  option : w.config.repo i = option ∧ w'.config.repo i = option
  loaded : loadedInfo i w = loadedInfo i w'
  log : w.log = [] ∧ w'.log = []

variable {i k : Nat} {option : RepoOption}

theorem Agree.twin {w w' : World} (agree : Agree option i k w w') : Twin i k w w' :=
  ⟨agree.now, agree.repoDefault, agree.option.1.trans agree.option.2.symm,
    by rw [agree.log.1, agree.log.2]⟩

theorem retentionRun_removed (own : TimeIsOwn option i k) {w w' : World} (twin : Twin i k w w')
    (hoption : w.config.repo i = option) (loaded : loadedInfo i w = loadedInfo i w') :
    removed i (exec (retentionRun i) w).2.log = removed i (exec (retentionRun i) w').2.log := by
  have hoption' : w'.config.repo i = option := twin.option.symm.trans hoption
  have left := infoBackupLoadFileReconstruct_keeps (aside_removeFrame i i) (w.storage i) w
  have right := infoBackupLoadFileReconstruct_keeps (aside_removeFrame i i) (w'.storage i) w'
  have after := twin.aside left right
  rw [retentionRun, exec_bind_of_ok (exec_repoOptionIdx i w),
    exec_bind_of_ok (exec_storageRepoIdx i w), exec_bind_of_ok (exec_repoOptionIdx i w'),
    exec_bind_of_ok (exec_storageRepoIdx i w'), hoption, hoption', exec_bind, exec_bind]
  rw [loadedInfo, loadedInfo] at loaded
  rcases hl : exec (infoBackupLoadFileReconstruct (w.storage i)) w with ⟨r, v⟩
  rcases hl' : exec (infoBackupLoadFileReconstruct (w'.storage i)) w' with ⟨r', v'⟩
  rw [hl, hl'] at loaded after
  change r = r' at loaded
  subst loaded
  cases r with
  | error e => exact after.removed
  | ok info => exact (twin_expireRetention own info v v' after).2.removed

/-- Where the time of retention is the repository's own, retention removes from it what its list,
its options and the time say. -/
theorem removed_of_own (own : TimeIsOwn option i k) {w w' : World} (agree : Agree option i k w w') :
    removed i (exec cmdExpire w).2.log = removed i (exec cmdExpire w').2.log := by
  obtain ⟨v, aside, run⟩ := cmdExpire_removed agree.set.1 agree.processed.1
  obtain ⟨v', aside', run'⟩ := cmdExpire_removed agree.set.2 agree.processed.2
  rw [run, run']
  apply retentionRun_removed own (agree.twin.aside aside aside')
  · exact aside.option.trans agree.option.1
  · rw [loadedInfo_aside aside, loadedInfo_aside aside', agree.loaded]

def olderLabel : Str := "20200101-000000F".toList
def newerLabel : Str := "20200102-000000F".toList

def newerInfo : InfoBackup := ⟨⟨[⟨1, 1, 1, 100000⟩], 0⟩, [{ backupLabel := newerLabel }]⟩
def pairInfo : InfoBackup := { newerInfo with backup := { backupLabel := olderLabel } :: newerInfo.backup }

/-- A repository with two full backups. -/
def pairStorage : Storage :=
  ⟨[(infoBackupFile, .file (.infoBackup pairInfo)),
    (backupPath olderLabel, .dir), (manifestFileName olderLabel, .file .other),
    (backupPath newerLabel, .dir), (manifestFileName newerLabel, .file .other)]⟩

/-- The repository `i` holds two full backups that are three days old, and the other repositories,
all empty, have the given retention. -/
def pairWorld (option : RepoOption) (i k : Nat) (retentionFull : Option Nat) : World where
  now := 3 * secPerDay
  timeText := fun _ => []
  config := {
    repoTotal := max i k + 1
    repo := fun j => if j = i then option else { retentionFull := retentionFull }
    repoDefault := k
    dryRun := some false }
  storage := fun j => if j = i then pairStorage else ⟨[]⟩

theorem exec_load_pair (w : World) :
    exec (infoBackupLoadFileReconstruct pairStorage) w = (.ok pairInfo, w) := rfl

theorem loadedInfo_pair {w : World} (h : w.storage i = pairStorage) :
    loadedInfo i w = .ok pairInfo := by
  rw [loadedInfo, h, exec_load_pair]

theorem pair_agree (option : RepoOption) (i k : Nat) (full full' : Option Nat) :
    Agree option i k (pairWorld option i k full) (pairWorld option i k full') := by
  have mem (full : Option Nat) : i ∈ repoRange (pairWorld option i k full).config := by
    simp only [repoRange, pairWorld, Bool.false_eq_true, if_false, List.mem_range]
    omega
  have storage (full : Option Nat) : (pairWorld option i k full).storage i = pairStorage := by
    simp [pairWorld]
  refine ⟨⟨rfl, rfl⟩, ⟨mem full, mem full'⟩, ⟨rfl, rfl⟩, rfl, ?_, ?_, ⟨rfl, rfl⟩⟩
  · simp [pairWorld]
  · rw [loadedInfo_pair (storage full), loadedInfo_pair (storage full')]

/-- The retention of `i` in the constructed state, with the time of the default repository. -/
theorem exec_retentionRun_pair {w : World} (time : (w.config.repo i).retentionFullType = .time)
    (given : (w.config.repo i).retentionFull ≠ none) (storage : w.storage i = pairStorage) :
    exec (retentionRun i) w = exec (do
      let days ← retentionFullDefault
      let minTimestamp ← timeBefore days
      let state ← expireTimeBasedBackup pairInfo minTimestamp i
      expireDiffBackup state.1 i) w := by
  rw [retentionRun, exec_bind_of_ok (exec_repoOptionIdx i w),
    exec_bind_of_ok (exec_storageRepoIdx i w), storage, exec_bind_of_ok (exec_load_pair w),
    expireRetention, expireFullRetention, time]
  simp only [Option.isSome_iff_ne_none.mpr given, if_true, bind_assoc]

theorem retentionRun_pair_none {w : World} (time : (w.config.repo i).retentionFullType = .time)
    (given : (w.config.repo i).retentionFull ≠ none) (storage : w.storage i = pairStorage)
    (default : (w.config.repo w.config.repoDefault).retentionFull = none) :
    removed i (exec (retentionRun i) w).2.log = removed i w.log := by
  have failed := exec_retentionFullDefault w
  rw [default] at failed
  rw [exec_retentionRun_pair time given storage, exec_bind_of_error failed]

theorem exec_expireUntilFirst_pair (w : World) :
    exec (expireUntilFirst newerLabel i 2 (pairInfo, 0) 0) w =
      (.ok ((newerInfo, 1), 1), { removeManifests i w olderLabel with
        log := (removeManifests i w olderLabel).log ++ [.expire .timeBased i [olderLabel]] }) := rfl

theorem exec_expireDiffBackup_newer (w : World) :
    exec (expireDiffBackup newerInfo i) w = (.ok (newerInfo, 0), w) := by
  rw [expireDiffBackup, exec_bind_of_ok (exec_repoOptionIdx i w)]
  generalize (w.config.repo i).retentionDiff.getD 0 = retention
  dsimp only
  split
  · have none : expireDiffList newerInfo retention = [] := by
      have newest : infoBackupDataLabelList newerInfo labelFullDiff = [newerLabel] := rfl
      have past : ([newerLabel] : List Str).length - retention = 0 := by
        rw [List.length_singleton]
        omega
      rw [expireDiffList, newest, past, List.take_zero, List.filter_nil]
    rw [none]
    rfl
  · rfl

theorem exec_expireTimeBasedBackup_pair (w : World) :
    ∃ v, exec (expireTimeBasedBackup pairInfo (2 * secPerDay) i) w = (.ok (newerInfo, 1), v) ∧
      v.log = (removeManifests i w olderLabel).log ++ [.expire .timeBased i [olderLabel]] := by
  have newest : exec (expireTimeBasedBackup pairInfo (2 * secPerDay) i) w = exec (do
      let result ← expireUntilFirst newerLabel i 2 (pairInfo, 0) 0
      let option ← repoOptionIdx i
      if option.retentionArchiveType = .full && option.retentionArchive.isNone && result.2 > 0 then
        retentionArchiveSet i (2 - result.2)
      return result.1) w := rfl
  rw [newest, exec_bind_of_ok (exec_expireUntilFirst_pair w),
    exec_bind_of_ok (exec_repoOptionIdx i _)]
  split
  · exact ⟨_, rfl, rfl⟩
  · exact ⟨_, rfl, rfl⟩

theorem retentionRun_pair_one {w : World} (time : (w.config.repo i).retentionFullType = .time)
    (given : (w.config.repo i).retentionFull ≠ none) (storage : w.storage i = pairStorage)
    (default : (w.config.repo w.config.repoDefault).retentionFull = some 1)
    (now : w.now = 3 * secPerDay) :
    olderLabel ∈ removed i (exec (retentionRun i) w).2.log := by
  have days := exec_retentionFullDefault w
  rw [default] at days
  have before : exec (timeBefore 1) w = (.ok (2 * secPerDay), w) := by
    change (Except.ok (w.now - (1 : Nat) * secPerDay), w) = _
    rw [now]
    rfl
  obtain ⟨v, run, log⟩ := exec_expireTimeBasedBackup_pair (i := i) w
  rw [exec_retentionRun_pair time given storage, exec_bind_of_ok days, exec_bind_of_ok before,
    exec_bind_of_ok run, exec_expireDiffBackup_newer, log, removed_concat, removes, if_pos rfl]
  exact List.mem_append_right _ List.mem_cons_self

/-- Retention in `i` is fixed by its own list, its own options and the time exactly when the time
of retention is its own. -/
theorem removed_isolated_iff (option : RepoOption) (i k : Nat) :
    (∀ w w', Agree option i k w w' → ∀ label,
      label ∈ removed i (exec cmdExpire w).2.log ↔ label ∈ removed i (exec cmdExpire w').2.log) ↔
    TimeIsOwn option i k := by
  constructor
  · intro isolated
    by_contra foreign
    rw [TimeIsOwn, not_or, not_or] at foreign
    obtain ⟨notCount, given, different⟩ := foreign
    have time : option.retentionFullType = .time := by
      cases h : option.retentionFullType with
      | count => exact absurd h notCount
      | time => rfl
    have agree := pair_agree option i k none (some 1)
    obtain ⟨v, aside, run⟩ := cmdExpire_removed agree.set.1 agree.processed.1
    obtain ⟨v', aside', run'⟩ := cmdExpire_removed agree.set.2 agree.processed.2
    have same := isolated _ _ agree olderLabel
    rw [run, run'] at same
    have default (full : Option Nat) {v : World}
        (aside : Aside i True (pairWorld option i k full) v) :
        (v.config.repo v.config.repoDefault).retentionFull = full := by
      rw [aside.retentionFull, aside.repoDefault]
      simp [pairWorld, Ne.symm different]
    have storage (full : Option Nat) {v : World}
        (aside : Aside i True (pairWorld option i k full) v) : v.storage i = pairStorage := by
      rw [aside.storage trivial]
      simp [pairWorld]
    have settings : v.config.repo i = option := aside.option.trans agree.option.1
    have settings' : v'.config.repo i = option := aside'.option.trans agree.option.2
    rw [retentionRun_pair_none (settings ▸ time) (settings ▸ given) (storage none aside)
      (default none aside), aside.removed] at same
    have member := retentionRun_pair_one (settings' ▸ time) (settings' ▸ given)
      (storage (some 1) aside') (default (some 1) aside') aside'.now
    exact List.not_mem_nil (same.mpr member)
  · intro own w w' agree label
    rw [removed_of_own own agree]

def timeOption : RepoOption := { retentionFullType := .time, retentionFull := some 1 }

/-- Two runs agree on the second repository, and only the retention of the first one differs: it
is not set, so nothing is removed from the second, or it is one day, so a backup is. -/
theorem removed_depends_on_default :
    Agree timeOption 1 0 (pairWorld timeOption 1 0 none) (pairWorld timeOption 1 0 (some 1)) ∧
      removed 1 (exec cmdExpire (pairWorld timeOption 1 0 none)).2.log = [] ∧
      removed 1 (exec cmdExpire (pairWorld timeOption 1 0 (some 1))).2.log = [olderLabel] :=
  ⟨pair_agree timeOption 1 0 none (some 1), by decide, by decide⟩

end Isolation

end RepoIsolation
