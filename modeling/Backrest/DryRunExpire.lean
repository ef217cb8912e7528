import Backrest.DryRun
import Backrest.BackupRun

/-!
# Loading and expiring in a dry run

After the load every listed backup has its manifest. Expiring reads no storage,
so the dry run and the real run expire the same backups, and the real run has
removed the manifests that the dry run logs.
-/

namespace DryRunExpire

open Text LexOrder BackupCommon BackupManifest BackupInfo ForwardClosure FileTree Effects
open Repository Expire ExpireCommand DryRun

section Backed

/-- Every listed backup has its manifest. -/
def Backed (storage : Storage) (info : InfoBackup) : Prop :=
  ∀ data ∈ info.backup, storageExists storage (manifestFileName data.backupLabel) = true

def ManifestsNamed (storage : Storage) : Prop :=
  ∀ label manifest, manifestLoadFile storage label = .ok manifest →
    manifest.data.backupLabel = label

/-- How often a label is listed. -/
def listedCount (label : Str) (info : InfoBackup) : Nat :=
  (info.backup.map (·.backupLabel)).count label

theorem deleteLoop_sublist (label : Str) (backup : List InfoBackupData) :
    (deleteLoop label backup).Sublist backup := by
  fun_induction deleteLoop label backup with
  | case1 => exact List.Sublist.refl _
  | case2 data h => exact List.nil_sublist _
  | case3 data h => exact List.Sublist.refl _
  | case4 data next rest h ih => exact (ih.cons_cons next).cons data
  | case5 data next rest h ih => exact ih.cons_cons data

theorem deleteLoop_count {label : Str} {backup : List InfoBackupData}
    (h : label ∈ backup.map (·.backupLabel)) :
    ((deleteLoop label backup).map (·.backupLabel)).count label <
      (backup.map (·.backupLabel)).count label := by
  fun_induction deleteLoop label backup with
  | case1 => cases h
  | case2 data same => simp [same]
  | case3 data other =>
    simp only [List.map_cons, List.map_nil, List.mem_singleton] at h
    exact absurd h.symm other
  | case4 data next rest same ih =>
    have fewer := ((deleteLoop_sublist label rest).map (·.backupLabel)).count_le label
    simp only [List.map_cons, List.count_cons, same, beq_self_eq_true, if_true]
    omega
  | case5 data next rest other ih =>
    have mem : label ∈ (next :: rest).map (·.backupLabel) := by
      rcases List.mem_cons.mp h with here | there
      · exact absurd here.symm other
      · exact there
    have fewer := ih mem
    rw [List.map_cons, List.map_cons, List.count_cons, List.count_cons]
    omega

theorem foldl_delete_sublist (labels : List Str) (info : InfoBackup) :
    (labels.foldl infoBackupDataDelete info).backup.Sublist info.backup := by
  induction labels generalizing info with
  | nil => exact List.Sublist.refl _
  | cons label rest ih => exact (ih _).trans (deleteLoop_sublist label info.backup)

variable {info info' : InfoBackup} {storage : Storage} {w w' : World}

theorem foldl_delete_count {labels : List Str} {label : Str} (mem : label ∈ labels)
    (listed : label ∈ info.backup.map (·.backupLabel)) :
    listedCount label (labels.foldl infoBackupDataDelete info) < listedCount label info := by
  induction labels generalizing info with
  | nil => cases mem
  | cons l rest ih =>
    by_cases here : label = l
    · subst here
      have fewer := ((foldl_delete_sublist rest (infoBackupDataDelete info label)).map
        (·.backupLabel)).count_le label
      exact lt_of_le_of_lt fewer (deleteLoop_count listed)
    · have later : label ∈ rest := (List.mem_cons.mp mem).resolve_left here
      have fewer := ((deleteLoop_sublist l info.backup).map (·.backupLabel)).count_le label
      by_cases still : label ∈ (infoBackupDataDelete info l).backup.map (·.backupLabel)
      · exact lt_of_lt_of_le (ih later still) fewer
      · have none := ((foldl_delete_sublist rest (infoBackupDataDelete info l)).map
          (·.backupLabel)).count_le label
        rw [List.count_eq_zero_of_not_mem still] at none
        exact lt_of_le_of_lt none (List.count_pos_iff.mpr listed)

theorem exec_missingManifest_foldlM (labels : List Str) (info : InfoBackup) (w : World) :
    ∃ w', exec (labels.foldlM (fun info removeBackup => do
        logEvent (.missingManifest removeBackup)
        return infoBackupDataDelete info removeBackup) info) w =
      (.ok (labels.foldl infoBackupDataDelete info), w') := by
  induction labels generalizing info w with
  | nil => exact ⟨w, rfl⟩
  | cons label rest ih =>
    obtain ⟨w', run⟩ := ih (infoBackupDataDelete info label)
      { w with log := w.log ++ [.missingManifest label] }
    exact ⟨w', by rw [List.foldlM_cons]; exact run⟩

/-- A round for a label without a manifest lists it less often, and no round lists a label more
often. -/
theorem reconstructRemove_count {label : Str}
    (run : exec (reconstructRemove storage info label) w = (.ok info', w')) :
    info'.backup.Sublist info.backup ∧
      (storageExists storage (manifestFileName label) = false →
        listedCount label info' ≤ listedCount label info - 1) := by
  rw [reconstructRemove] at run
  split at run
  · rename_i missing
    rw [Bool.and_eq_true, Bool.not_eq_true'] at missing
    obtain ⟨v, loop⟩ := exec_missingManifest_foldlM
      (strLstSort (infoBackupDataDependentList info label) .desc) info w
    rw [loop] at run
    cases run
    refine ⟨foldl_delete_sublist _ _, fun _ => ?_⟩
    have listed : label ∈ info.backup.map (·.backupLabel) := by
      obtain ⟨data, found⟩ := Option.isSome_iff_exists.mp missing.2
      have same := List.find?_some found
      rw [decide_eq_true_eq] at same
      exact List.mem_map.mpr ⟨data, List.mem_of_find?_eq_some found, same⟩
    have mem : label ∈ strLstSort (infoBackupDataDependentList info label) .desc :=
      mem_strLstSort.mpr (mem_collect_of_mem (List.mem_singleton.mpr rfl) _)
    have fewer := foldl_delete_count mem listed
    omega
  · rename_i kept
    cases run
    refine ⟨List.Sublist.refl _, fun missing => ?_⟩
    have absent : label ∉ info.backup.map (·.backupLabel) := by
      intro listed
      obtain ⟨data, mem, same⟩ := List.mem_map.mp listed
      apply kept
      rw [missing, Bool.not_false, Bool.true_and, infoBackupDataByLabel, List.find?_isSome]
      exact ⟨data, mem, decide_eq_true same⟩
    rw [listedCount, List.count_eq_zero_of_not_mem absent]

theorem reconstructRemove_foldlM_count {labels : List Str}
    (run : exec (labels.foldlM (reconstructRemove storage) info) w = (.ok info', w')) {label : Str}
    (missing : storageExists storage (manifestFileName label) = false) :
    listedCount label info' ≤ listedCount label info - labels.count label := by
  induction labels generalizing info w with
  | nil =>
    cases run
    simp
  | cons l rest ih =>
    rw [List.foldlM_cons] at run
    obtain ⟨mid, v, first, later⟩ := exec_bind_ok run
    obtain ⟨sublist, fewer⟩ := reconstructRemove_count first
    have tail := ih later
    have less := (sublist.map (·.backupLabel)).count_le label
    rw [← listedCount, ← listedCount] at less
    by_cases here : l = label
    · subst here
      have := fewer missing
      rw [List.count_cons_self]
      omega
    · rw [List.count_cons_of_ne here]
      omega

theorem reconstructAdd_backed (named : ManifestsNamed storage) {current : List Str} {label : Str}
    (backed : Backed storage info)
    (run : exec (reconstructAdd storage current info label) w = (.ok info', w')) :
    Backed storage info' := by
  rw [reconstructAdd] at run
  split at run
  · rename_i present
    obtain ⟨manifest, v, load, rest⟩ := exec_bind_ok run
    obtain ⟨loaded, rfl⟩ := exec_orThrow_ok load
    split at rest
    · obtain ⟨_, v', logged, add⟩ := exec_bind_ok rest
      obtain ⟨added, -⟩ := exec_orThrow_ok add
      obtain ⟨data, new, last⟩ := except_bind_ok added
      cases last
      intro entry mem
      rcases List.mem_append.mp (mem_sortBy.mp mem) with old | here
      · exact backed entry old
      · rw [List.mem_singleton.mp here, (BackupRun.infoBackupDataNew_spec new).1,
          named label manifest loaded]
        exact (Bool.and_eq_true _ _ ▸ present).2
    · obtain ⟨_, v', logged, last⟩ := exec_bind_ok rest
      cases last
      exact backed
  · cases run
    exact backed

theorem load_backed (named : ManifestsNamed storage)
    (loaded : (exec (infoBackupLoadFileReconstruct storage) w).1 = .ok info) :
    Backed storage info := by
  have run : exec (infoBackupLoadFileReconstruct storage) w =
      (.ok info, (exec (infoBackupLoadFileReconstruct storage) w).2) := Prod.ext loaded rfl
  obtain ⟨stored, v₁, load, afterLoad⟩ := exec_bind_ok run
  obtain ⟨kept, v₂, removed, add⟩ := exec_bind_ok afterLoad
  have backed : Backed storage kept := by
    intro data mem
    by_contra missing
    have none := reconstructRemove_foldlM_count removed (Bool.eq_false_iff.mpr missing)
    have all := (strLstSort_perm (infoBackupDataLabelList stored (fun _ => true)) .asc).count_eq
      data.backupLabel
    rw [all, infoBackupDataLabelList, List.filter_true, ← listedCount] at none
    have listed : 0 < listedCount data.backupLabel kept :=
      List.count_pos_iff.mpr (List.mem_map_of_mem mem)
    omega
  exact foldlM_ok (P := fun info _ => Backed storage info)
    (fun _ _ _ _ _ _ h step => reconstructAdd_backed named h step) backed add

end Backed

section Expire
variable {S : Nat → Storage} {R : List Nat} {i : Nat}

/-- The manifests of expired backups. -/
def manifestScope (p : List Str) : Prop :=
  ∃ label, p = manifestFileName label ∨ p = manifestCopyFileName label

variable {info : InfoBackup} {storage : Storage}

theorem Backed.delete (backed : Backed storage info) (labels : List Str) :
    Backed storage (labels.foldl infoBackupDataDelete info) :=
  fun data mem => backed data ((foldl_delete_sublist labels info).subset mem)

theorem Backed.dependent (backed : Backed storage info) {label : Str}
    (own : storageExists storage (manifestFileName label) = true) {l : Str}
    (mem : l ∈ infoBackupDataDependentList info label) :
    storageExists storage (manifestFileName l) = true := by
  rcases mem_collect_origin mem with seed | ⟨data, hd, same⟩
  · rw [List.mem_singleton.mp seed]
    exact own
  · rw [← same]
    exact backed data hd

theorem Backed.label (backed : Backed storage info) {expression : Str → Bool} {label : Str}
    (mem : label ∈ infoBackupDataLabelList info expression) :
    storageExists storage (manifestFileName label) = true := by
  obtain ⟨data, hd, rfl⟩ := List.mem_map.mp (List.mem_of_mem_filter mem)
  exact backed data hd

theorem foldl_removeManifests_dry {w : World} (dry : w.config.real = false) (labels : List Str) :
    labels.foldl (removeManifests i) w = w := by
  induction labels with
  | nil => rfl
  | cons label rest ih =>
    rw [List.foldl_cons, removeManifests, write_of_dryRun dry,
      write_of_dryRun dry, ih]

theorem foldl_removeManifests_removes {v : World} (real : v.config.real = true)
    (labels : List Str) :
    Removes i (fun p => labels.any (fun label =>
        decide (p = manifestFileName label) || decide (p = manifestCopyFileName label))) v
      (labels.foldl (removeManifests i) v) := by
  induction labels generalizing v with
  | nil => exact removes_log v v.log
  | cons label rest ih =>
    have first : Removes i (fun p => decide (p = manifestFileName label)) v
        (v.write i (fun storage => storage.remove (manifestFileName label))) := by
      refine removes_write real _ (fun t p => ?_)
      rw [node_remove]
      simp
    have real' : (v.write i (fun storage =>
        storage.remove (manifestFileName label))).config.real = true := by
      rw [write_config]
      exact real
    have second : Removes i (fun p => decide (p = manifestCopyFileName label))
        (v.write i (fun storage => storage.remove (manifestFileName label)))
        (removeManifests i v label) := by
      refine removes_write real' _ (fun t p => ?_)
      rw [node_remove]
      simp
    have later := ih (v := removeManifests i v label) (by
      rw [removeManifests, write_config]
      exact real')
    exact (first.trans second).trans later

def expiredLabels (info : InfoBackup) (label : Str) : List Str :=
  strLstSort (infoBackupDataDependentList info label) .desc

theorem expireEvent_about (kind : ExpireKind) (labels : List Str) :
    About i (.expire kind i labels) := by
  intro j hj p
  simp [covers, Ne.symm hj]

/-- The manifests go in the real run and are logged in the dry run. -/
theorem mirror_expire {w v : World} (mirror : Mirror S R i manifestScope w v)
    (backed : Backed (S i) info) {label : Str}
    (own : storageExists (S i) (manifestFileName label) = true) (kind : ExpireKind)
    (log : List LogEvent) :
    Mirror S R i manifestScope
      { w with log := w.log ++ [.expire kind i (strLstSort (expiredLabels info label) .asc)] }
      { (expiredLabels info label).foldl (removeManifests i) v with log := log } := by
  have removes := foldl_removeManifests_removes (i := i) mirror.real (expiredLabels info label)
  refine mirror.advance _ (removes.only.trans (only_log _ _)) (fun p _ => removes.node p) ?_ ?_ ?_
    (fun _ h => h) ?_
  · intro p _ _
    simp only [covered, covers, List.any_cons, List.any_nil, Bool.or_false, decide_true,
      Bool.true_and]
    rw [Bool.eq_iff_iff, List.any_eq_true, List.any_eq_true]
    simp only [mem_strLstSort]
  · intro e he
    rw [List.mem_singleton.mp he]
    exact expireEvent_about kind _
  · intro e he
    rw [List.mem_singleton.mp he]
    intro l hl
    exact backed.dependent own (mem_strLstSort.mp (mem_strLstSort.mp hl))
  · intro e he p h
    rw [List.mem_singleton.mp he] at h
    simp only [covers, decide_true, Bool.true_and, List.any_eq_true, Bool.or_eq_true,
      decide_eq_true_eq] at h
    obtain ⟨l, -, path⟩ := h
    exact ⟨l, path⟩

theorem expireLogged_mirrored (kind : ExpireKind) {state : InfoBackup × Nat} {label : Str}
    (backed : Backed (S i) state.1)
    (own : storageExists (S i) (manifestFileName label) = true) :
    Mirrored S R i manifestScope manifestScope (fun state => Backed (S i) state.1)
      (expireLogged kind i state label) (expireLogged kind i state label) := by
  intro w v mirror
  have step (u : World) : exec (expireLogged kind i state label) u =
      (.ok ((expiredLabels state.1 label).foldl infoBackupDataDelete state.1,
          state.2 + (strLstSort (expiredLabels state.1 label) .asc).length),
        { (expiredLabels state.1 label).foldl (removeManifests i) u with
          log := ((expiredLabels state.1 label).foldl (removeManifests i) u).log ++
            [.expire kind i (strLstSort (expiredLabels state.1 label) .asc)] }) := by
    rw [expireLogged, exec_bind_of_ok (exec_expireBackup _ _ _ _)]
    rfl
  rw [step, step, foldl_removeManifests_dry mirror.dry]
  refine ⟨rfl, mirror_expire mirror backed own kind _, fun state' h => ?_⟩
  cases h
  exact backed.delete _

theorem expireLogged_foldlM_mirrored (kind : ExpireKind) (backed : Backed (S i) info)
    (labels : List Str)
    (own : ∀ label ∈ labels, storageExists (S i) (manifestFileName label) = true) :
    Mirrored S R i manifestScope manifestScope (fun state => Backed (S i) state.1)
      (labels.foldlM (expireLogged kind i) (info, 0))
      (labels.foldlM (expireLogged kind i) (info, 0)) :=
  mirrored_foldlM labels (fun _ h label mem => expireLogged_mirrored kind h (own label mem)) backed

theorem expireDiffBackup_mirrored (backed : Backed (S i) info) :
    Mirrored S R i manifestScope manifestScope (fun state => Backed (S i) state.1)
      (expireDiffBackup info i) (expireDiffBackup info i) := by
  refine mirrored_bind (mirrored_repoOptionIdx i) (fun option _ => ?_) (fun _ h => h)
  dsimp only
  split
  · refine expireLogged_foldlM_mirrored .diff backed _ (fun label mem => ?_)
    exact backed.label (List.mem_of_mem_take (List.mem_of_mem_filter mem))
  · exact mirrored_pure backed

theorem expireFullBackup_mirrored (backed : Backed (S i) info) :
    Mirrored S R i manifestScope manifestScope (fun state => Backed (S i) state.1)
      (expireFullBackup info i) (expireFullBackup info i) := by
  refine mirrored_bind (mirrored_repoOptionIdx i) (fun option _ => ?_) (fun _ h => h)
  dsimp only
  split
  · refine expireLogged_foldlM_mirrored .full backed _ (fun label mem => ?_)
    exact backed.label (List.mem_of_mem_take mem)
  · exact mirrored_pure backed

theorem expireUntilFirst_mirrored (keep : Str) (fuel : Nat) {state : InfoBackup × Nat}
    (backed : Backed (S i) state.1) (num : Nat) :
    Mirrored S R i manifestScope manifestScope (fun result => Backed (S i) result.1.1)
      (expireUntilFirst keep i fuel state num) (expireUntilFirst keep i fuel state num) := by
  induction fuel generalizing state num with
  | zero =>
    have failed : Mirrored S R i manifestScope manifestScope
        (fun result : (InfoBackup × Nat) × Nat => Backed (S i) result.1.1)
        (orThrow (.error (lstGetError 0 0))) (orThrow (.error (lstGetError 0 0))) :=
      mirrored_orThrow (fun _ h => by cases h)
    exact failed
  | succ fuel ih =>
    refine mirrored_bind (mirrored_orThrow (Q := fun first => first ∈ state.1.backup) ?_)
      (fun first mem => ?_) (fun _ h => h)
    · intro first found
      rw [infoBackupData, lstGet] at found
      split at found
      · rename_i item here
        cases found
        exact List.mem_of_getElem? here
      · cases found
    · split
      · exact mirrored_pure backed
      · exact mirrored_bind (expireLogged_mirrored .timeBased backed (backed first mem))
          (fun state backed => ih backed _) (fun _ h => h)

theorem retentionArchiveSet_mirrored (value : Nat) :
    Mirrored S R i manifestScope manifestScope (fun _ => True) (retentionArchiveSet i value)
      (retentionArchiveSet i value) := by
  intro w v mirror
  refine ⟨rfl, ?_, fun _ _ => trivial⟩
  refine { mirror with config := ?_ }
  change Config.retentionArchiveSet v.config i value = _
  rw [mirror.config]
  rfl

theorem expireTimeBasedBackup_mirrored (backed : Backed (S i) info) (minTimestamp : Int) :
    Mirrored S R i manifestScope manifestScope (fun state => Backed (S i) state.1)
      (expireTimeBasedBackup info minTimestamp i) (expireTimeBasedBackup info minTimestamp i) := by
  rw [expireTimeBasedBackup]
  dsimp only
  split
  · exact mirrored_pure backed
  · refine mirrored_bind (expireUntilFirst_mirrored _ _ backed _) (fun result after => ?_)
      (fun _ h => h)
    refine mirrored_bind (mirrored_repoOptionIdx i) (fun option _ => ?_) (fun _ h => h)
    split
    · exact mirrored_bind (retentionArchiveSet_mirrored _) (fun _ _ => mirrored_pure after)
        (fun _ h => h)
    · exact mirrored_pure after

theorem retentionFullDefault_mirrored :
    Mirrored S R i manifestScope manifestScope (fun _ => True) retentionFullDefault
      retentionFullDefault := by
  intro w v mirror
  have read (u : World) : exec retentionFullDefault u = exec (orThrow
      ((u.config.repo u.config.repoDefault).retentionFull.elim
        (.error ⟨.assertError,
          "option 'repo-retention-full' is null but non-null was requested".toList⟩) .ok)) u := by
    rw [retentionFullDefault, exec_bind_of_ok (exec_get u)]
    cases (u.config.repo u.config.repoDefault).retentionFull <;> rfl
  have same : v.config.repoDefault = w.config.repoDefault := by rw [mirror.config]
  rw [read, read, mirror.option, same]
  exact mirrored_orThrow (fun _ _ => trivial) w v mirror

theorem timeBefore_mirrored (days : Nat) :
    Mirrored S R i manifestScope manifestScope (fun _ => True) (timeBefore days) (timeBefore days) :=
  fun _ _ mirror => ⟨congrArg (fun now => Except.ok (now - days * secPerDay)) mirror.now.symm,
    mirror, fun _ _ => trivial⟩

theorem expireRetention_mirrored (backed : Backed (S i) info) (option : RepoOption) :
    Mirrored S R i manifestScope manifestScope (fun state => Backed (S i) state.1)
      (expireRetention info option i) (expireRetention info option i) := by
  have full : Mirrored S R i manifestScope manifestScope (fun state => Backed (S i) state.1)
      (expireFullRetention info option i) (expireFullRetention info option i) := by
    rw [expireFullRetention]
    split
    · split
      · exact mirrored_bind retentionFullDefault_mirrored (fun days _ =>
          mirrored_bind (timeBefore_mirrored days) (fun minTimestamp _ =>
            expireTimeBasedBackup_mirrored backed minTimestamp) (fun _ h => h)) (fun _ h => h)
      · exact mirrored_pure backed
    · exact expireFullBackup_mirrored backed
  exact mirrored_bind full (fun state after => expireDiffBackup_mirrored after) (fun _ h => h)

end Expire

section Adhoc
variable {S : Nat → Storage} {R : List Nat} {i : Nat}

def expiredInfo (info : InfoBackup) (label : Str) : InfoBackup :=
  (expiredLabels info label).foldl infoBackupDataDelete info

def LeavesBackup (info : InfoBackup) (label : Str) : Prop := (expiredInfo info label).backup ≠ []

/-- The messages of a request: about the latest link, which a real run moves, and about the
backups. -/
def adhocEvents (i : Nat) (info : InfoBackup) (label latest : Str) : List LogEvent :=
  (if (infoBackupDataByLabel (expiredInfo info label) latest).isNone then [.expireLatest i latest]
    else []) ++ [.expire .adhoc i (strLstSort (expiredLabels info label) .asc)]

variable {info : InfoBackup} {w v : World} {latest : InfoBackupData}

theorem exec_latestUpdate_dry (dry : w.config.dryRun = some true) (info : InfoBackup) (latest : Str) :
    exec (latestUpdate info latest i) w = (.ok ⟨⟩, { w with log := w.log ++
      if (infoBackupDataByLabel info latest).isNone then [.expireLatest i latest] else [] }) := by
  rw [latestUpdate]
  split
  · have skip : (w.config).dryRunBool = .ok true := by rw [Config.dryRunBool, dry]
    rw [exec_bind_of_ok (exec_logEvent _ _), exec_bind_of_ok (exec_get _)]
    change exec (orThrow w.config.dryRunBool >>= fun dryRun =>
      if (!dryRun) = true then _ else _) _ = _
    rw [skip]
    rfl
  · simp

/-- Only the latest link is written, since a backup is left to link to. -/
theorem exec_latestUpdate_real (real : v.config.dryRun = some false) (left : info.backup ≠ [])
    (latest : Str) :
    ∃ v', exec (latestUpdate info latest i) v = (.ok ⟨⟩, v') ∧ Only i v v' ∧
      ∀ p, p ∉ rewritten → (v'.storage i).node p = (v.storage i).node p := by
  rw [latestUpdate]
  split
  · have go : (v.config).dryRunBool = .ok false := by rw [Config.dryRunBool, real]
    have last : infoBackupDataLast info = .ok (info.backup.getLast left) := by
      rw [infoBackupDataLast, List.getLast?_eq_some_getLast left]
    rw [exec_bind_of_ok (exec_logEvent _ _), exec_bind_of_ok (exec_get _)]
    change ∃ v', exec (orThrow v.config.dryRunBool >>= fun dryRun =>
      if (!dryRun) = true then _ else _) _ = _ ∧ _
    rw [go, last]
    refine ⟨_, rfl, (only_log v _).trans (only_write _ _), fun p rare => ?_⟩
    change (((World.write { v with log := _ } i _).storage i).node p) = _
    rw [write_storage_self]
    split
    · have link : p ≠ [storageRepoBackup, backupLinkName] := fun same => rare (by simp [rewritten, same])
      rw [node_put, if_neg link, node_remove, if_neg link]
    · rfl
  · exact ⟨v, rfl, ⟨rfl, rfl, rfl, rfl, fun _ _ => rfl⟩, fun _ _ => rfl⟩

theorem Mirror.relog {scope : List Str → Prop} {log log' : List LogEvent}
    (mirror : Mirror S R i scope { w with log := log } v) (same : ∀ e, e ∈ log' ↔ e ∈ log) :
    Mirror S R i scope { w with log := log' } v := by
  have cover (j : Nat) (p : List Str) : covered j log' p = covered j log p := by
    rw [Bool.eq_iff_iff, covered, covered, List.any_eq_true, List.any_eq_true]
    simp only [same]
  refine ⟨{ mirror.toAlike with
    node := fun j p rare => ?_
    named := fun e he => mirror.named e ((same e).mp he) }, fun p h => ?_, fun j hj => ?_⟩
  · rw [cover]
    exact mirror.node j p rare
  · rw [cover] at h
    exact mirror.within p h
  · obtain ⟨other, none, stored⟩ := mirror.fresh j hj
    exact ⟨other, fun p => (cover j p).trans (none p), stored⟩

/-- The messages of the dry run come in the other order than the changes of the real run. -/
theorem mirror_adhoc {v' : World} (mirror : Mirror S R i manifestScope w v)
    (backed : Backed (S i) info) {label : Str}
    (own : storageExists (S i) (manifestFileName label) = true) (latest : Str)
    (only : Only i ((expiredLabels info label).foldl (removeManifests i) v) v')
    (same : ∀ p, p ∉ rewritten → (v'.storage i).node p =
      (((expiredLabels info label).foldl (removeManifests i) v).storage i).node p) :
    Mirror S R i manifestScope { w with log := w.log ++ adhocEvents i info label latest } v' := by
  have expired := mirror_expire mirror backed own .adhoc
    ((expiredLabels info label).foldl (removeManifests i) v).log
  have silent : ∀ e ∈ (if (infoBackupDataByLabel (expiredInfo info label) latest).isNone then
      [LogEvent.expireLatest i latest] else []), Silent S e := by
    intro e he
    split at he
    · rw [List.mem_singleton.mp he]
      exact ⟨fun _ _ => rfl, trivial⟩
    · cases he
  have linked := expired.quiet only same silent
  exact Mirror.relog linked (fun e => by simp only [adhocEvents, List.mem_append]; tauto)

/-- The part of `expireAdhocBackup` that changes something. -/
theorem exec_expireAdhocBackup {label : Str} (check : expireAdhocCheck info label = .ok ⟨⟩)
    (last : infoBackupDataLast info = .ok latest) (u : World) :
    exec (expireAdhocBackup info label i) u =
      exec (do
        latestUpdate (expiredInfo info label) latest.backupLabel i
        logEvent (.expire .adhoc i (strLstSort (expiredLabels info label) .asc))
        return (expiredInfo info label, (strLstSort (expiredLabels info label) .asc).length))
        ((expiredLabels info label).foldl (removeManifests i) u) := by
  rw [expireAdhocBackup, check, last]
  exact exec_bind_of_ok (exec_expireBackup info label i u)

theorem exec_expireAdhocBackup_dry (dry : w.config.dryRun = some true) {label : Str}
    (check : expireAdhocCheck info label = .ok ⟨⟩) (last : infoBackupDataLast info = .ok latest) :
    exec (expireAdhocBackup info label i) w =
      (.ok (expiredInfo info label, (strLstSort (expiredLabels info label) .asc).length),
        { w with log := w.log ++ adhocEvents i info label latest.backupLabel }) := by
  have link := exec_latestUpdate_dry (i := i) dry (expiredInfo info label) latest.backupLabel
  rw [exec_expireAdhocBackup check last, foldl_removeManifests_dry (by simp [Config.real, dry]),
    exec_bind_of_ok link, exec_bind_of_ok (exec_logEvent _ _), exec_pure, adhocEvents,
    List.append_assoc]

theorem expireAdhocBackup_mirrored (backed : Backed (S i) info) {label : Str}
    (own : storageExists (S i) (manifestFileName label) = true)
    (leaves : expireAdhocCheck info label = .ok ⟨⟩ → LeavesBackup info label) :
    Mirrored S R i manifestScope manifestScope (fun state => Backed (S i) state.1)
      (expireAdhocBackup info label i) (expireAdhocBackup info label i) := by
  intro w v mirror
  cases check : expireAdhocCheck info label with
  | error e =>
    have failed (u : World) : exec (expireAdhocBackup info label i) u = (.error e, u) := by
      rw [expireAdhocBackup, check]
      rfl
    rw [failed, failed]
    exact ⟨rfl, mirror, fun _ h => by cases h⟩
  | ok _ =>
    cases last : infoBackupDataLast info with
    | error e =>
      have failed (u : World) : exec (expireAdhocBackup info label i) u = (.error e, u) := by
        rw [expireAdhocBackup, check, last]
        rfl
      rw [failed, failed]
      exact ⟨rfl, mirror, fun _ h => by cases h⟩
    | ok latest =>
      have removes := foldl_removeManifests_removes (i := i) mirror.real (expiredLabels info label)
      have real : ((expiredLabels info label).foldl (removeManifests i) v).config.dryRun =
          some false := by
        rw [removes.only.config, mirror.config]
      obtain ⟨v', run, only, same⟩ :=
        exec_latestUpdate_real (i := i) real (leaves check) latest.backupLabel
      rw [exec_expireAdhocBackup_dry mirror.dryRun check last, exec_expireAdhocBackup check last,
        exec_bind_of_ok run]
      refine ⟨rfl, mirror_adhoc mirror backed own latest.backupLabel
        (only.trans (only_log v' _)) same, fun state h => ?_⟩
      cases h
      exact backed.delete _

/-- With no backup left to link to, the real run fails after the manifests are gone. -/
theorem expireAdhocBackup_emptied (mirror : Mirror S R i manifestScope w v)
    (backed : Backed (S i) info) {label : Str}
    (own : storageExists (S i) (manifestFileName label) = true)
    (check : expireAdhocCheck info label = .ok ⟨⟩) (last : infoBackupDataLast info = .ok latest)
    (emptied : ¬ LeavesBackup info label) :
    ∃ e v', exec (expireAdhocBackup info label i) v = (.error e, v') ∧
      Mirror S R i manifestScope
        { w with log := w.log ++ adhocEvents i info label latest.backupLabel } v' := by
  have none := not_not.mp emptied
  have removes := foldl_removeManifests_removes (i := i) mirror.real (expiredLabels info label)
  have go : ((expiredLabels info label).foldl (removeManifests i) v).config.dryRunBool =
      .ok false := by
    rw [removes.only.config, mirror.config]
    rfl
  have missing : (infoBackupDataByLabel (expiredInfo info label)
      latest.backupLabel).isNone = true := by
    rw [infoBackupDataByLabel, none]
    rfl
  have noLast : infoBackupDataLast (expiredInfo info label) =
      .error (lstGetError 4294967295 0) := by
    rw [infoBackupDataLast, none]
    rfl
  have fails : ∃ log, exec (latestUpdate (expiredInfo info label) latest.backupLabel i)
      ((expiredLabels info label).foldl (removeManifests i) v) =
        (.error (lstGetError 4294967295 0),
          { (expiredLabels info label).foldl (removeManifests i) v with log := log }) := by
    rw [latestUpdate, if_pos missing, exec_bind_of_ok (exec_logEvent _ _),
      exec_bind_of_ok (exec_get _)]
    dsimp only
    rw [go, noLast]
    exact ⟨_, rfl⟩
  obtain ⟨log, run⟩ := fails
  refine ⟨lstGetError 4294967295 0, _, ?_, mirror_adhoc mirror backed own latest.backupLabel
    (only_log _ log) (fun _ _ => rfl)⟩
  rw [exec_expireAdhocBackup check last, exec_bind_of_error run]

theorem Backed.listed {storage : Storage} (backed : Backed storage info) {label : Str}
    (found : (infoBackupDataByLabel info label).isSome) :
    storageExists storage (manifestFileName label) = true := by
  obtain ⟨data, here⟩ := Option.isSome_iff_exists.mp found
  have same := List.find?_some here
  rw [decide_eq_true_eq] at same
  rw [← same]
  exact backed data (List.mem_of_find?_eq_some here)

theorem mirror_found {scope : List Str → Prop} (mirror : Mirror S R i scope w v) :
    Mirror S R i scope { w with adhocBackupFound := true } { v with adhocBackupFound := true } :=
  { mirror with found := rfl }

theorem expireRequested_mirrored (backed : Backed (S i) info) {label : Str}
    (leaves : (infoBackupDataByLabel info label).isSome → expireAdhocCheck info label = .ok ⟨⟩ →
      LeavesBackup info label) (max : Nat) :
    Mirrored S R i manifestScope manifestScope (fun state => Backed (S i) state.1)
      (expireRequested info label i max) (expireRequested info label i max) := by
  have listed : Mirrored S R i manifestScope manifestScope (fun state => Backed (S i) state.1)
      (expireListed info label i) (expireListed info label i) := by
    rw [expireListed]
    split
    · rename_i found
      have set : Mirrored S R i manifestScope manifestScope (fun _ => True)
          (modify (fun w => { w with adhocBackupFound := true }) : Command PUnit)
          (modify (fun w => { w with adhocBackupFound := true })) :=
        fun _ _ mirror => ⟨rfl, mirror_found mirror, fun _ _ => trivial⟩
      exact mirrored_bind set (fun _ _ => expireAdhocBackup_mirrored backed (backed.listed found)
        (leaves found)) (fun _ h => h)
    · exact mirrored_pure backed
  refine mirrored_bind listed (fun state after => ?_) (fun _ h => h)
  have warn : Mirrored S R i manifestScope manifestScope (fun _ => True) (warnMissing label i max)
      (warnMissing label i max) := by
    intro w v mirror
    rw [warnMissing, exec_bind_of_ok (exec_get w), exec_bind_of_ok (exec_get v), mirror.found]
    split
    · have silent : Silent S (.backupMissing label) := ⟨fun _ _ => rfl, trivial⟩
      exact mirrored_logEvent silent w v mirror
    · exact mirrored_pure trivial w v mirror
  exact mirrored_bind warn (fun _ _ => mirrored_pure after) (fun _ h => h)

/-- A request that leaves no backup listed succeeds in the dry run and fails in the real run. -/
theorem expireInfo_emptied (mirror : Mirror S R i manifestScope w v) (backed : Backed (S i) info)
    {label : Str} (found : (infoBackupDataByLabel info label).isSome)
    (check : expireAdhocCheck info label = .ok ⟨⟩) (emptied : ¬ LeavesBackup info label)
    (option : RepoOption) (max : Nat) :
    ∃ n w' e v', exec (expireInfo info option (some label) i max) w =
        (.ok (expiredInfo info label, n), w') ∧
      exec (expireInfo info option (some label) i max) v = (.error e, v') ∧
      Mirror S R i manifestScope w' v' := by
  obtain ⟨latest, last⟩ : ∃ latest, infoBackupDataLast info = .ok latest := by
    obtain ⟨data, here⟩ := Option.isSome_iff_exists.mp found
    have nonempty := List.ne_nil_of_mem (List.mem_of_find?_eq_some here)
    exact ⟨_, by rw [infoBackupDataLast, List.getLast?_eq_some_getLast nonempty]⟩
  have dry := exec_expireAdhocBackup_dry (i := i) (w := { w with adhocBackupFound := true })
    mirror.dryRun check last
  obtain ⟨e, v', real, after⟩ := expireAdhocBackup_emptied (mirror_found mirror) backed
    (backed.listed found) check last emptied
  have listed (u : World) : exec (expireListed info label i) u =
      exec (expireAdhocBackup info label i) { u with adhocBackupFound := true } := by
    rw [expireListed, if_pos found]
    rfl
  refine ⟨(strLstSort (expiredLabels info label) .asc).length, _, e, v', ?_,
    exec_bind_of_error ((listed v).trans real), after⟩
  exact exec_bind_of_ok ((listed w).trans dry)

/-- The dry run and the real run change the list of backups alike. -/
theorem expireInfo_mirrored (backed : Backed (S i) info) (option : RepoOption) {adhoc : Option Str}
    (leaves : ∀ label, adhoc = some label → (infoBackupDataByLabel info label).isSome →
      expireAdhocCheck info label = .ok ⟨⟩ → LeavesBackup info label) (max : Nat) :
    Mirrored S R i manifestScope manifestScope (fun state => Backed (S i) state.1)
      (expireInfo info option adhoc i max) (expireInfo info option adhoc i max) := by
  cases adhoc with
  | none => exact expireRetention_mirrored backed option
  | some label => exact expireRequested_mirrored backed (leaves label rfl) max

end Adhoc

end DryRunExpire
