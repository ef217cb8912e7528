import Backrest.DryRunHistory
import Backrest.DryRunParted
import Mathlib.Data.List.Infix

/-!
# What a dry run predicts

The runs of the repositories are put together. A dry run leaves all storage as
it is, and its log names what the real run removes exactly when no step of it
reaches one of the places where the log and the removal part: a WAL directory
that is removed whole while a range is pending, history that the default
repository lists and that is not in the repository or is gone from the default
one, or a request that leaves no backup listed.
-/

namespace DryRunExact

open Text BackupCommon BackupInfo FileTree Effects Repository ExpireArchive ExpireCommand RangeScan
open WalScan ExpireFrame DryRun DryRunExpire DryRunRemove DryRunParted DryRunHistory

section Unchanged

/-- A dry run stays a dry run and changes no storage. -/
def Unchanged (w w' : World) : Prop :=
  w.config.real = false → w'.storage = w.storage ∧ w'.config.real = false

theorem unchanged_of_eq {w w' : World} (storage : w'.storage = w.storage)
    (dryRun : w'.config.dryRun = w.config.dryRun) : Unchanged w w' := by
  intro dry
  refine ⟨storage, ?_⟩
  rwa [Config.real, dryRun]

theorem unchanged_write (j : Nat) (change : Storage → Storage) :
    Keeps Unchanged (storageWrite j change) := by
  intro w dry
  rw [exec_storageWrite, write_of_dryRun dry]
  exact ⟨rfl, dry⟩

theorem unchanged_frame (j : Nat) : Frame Unchanged j where
  refl := fun _ => unchanged_of_eq rfl rfl
  trans := by
    intro a b c first rest dry
    obtain ⟨same, dryB⟩ := first dry
    obtain ⟨same', dryC⟩ := rest dryB
    exact ⟨same'.trans same, dryC⟩
  write := fun _ => unchanged_write j _
  log := fun _ _ => unchanged_of_eq rfl rfl
  save := unchanged_write j
  expireLog := fun _ _ _ => unchanged_of_eq rfl rfl
  set := fun _ _ => unchanged_of_eq rfl rfl
  found := fun _ => unchanged_of_eq rfl rfl

end Unchanged

section Repo
variable {S : Nat → Storage} {R : List Nat} {i : Nat}

/-- The content of a repository stands where expire and backup put it, and archive.info has the
entry it says is current. -/
structure Placed (storage : Storage) : Prop where
  closed : Closed storage
  manifests : ManifestsNamed storage
  segments : SegmentsNamed storage
  history : HistoryNamed storage
  current : ∀ infoArchive, infoArchiveLoadFile storage = .ok infoArchive →
    ∃ currentPg, infoPgDataCurrent infoArchive.infoPg = .ok currentPg

/-- A check of one entry for that. -/
def placedEntry (storage : Storage) (e : List Str × Node RepoFile) : Bool :=
  e.1.inits.all (fun q => decide (q = []) || (storage.node q).isSome) &&
    (match e with
      | ([_, label, _], .file (.manifest manifest)) => decide (manifest.data.backupLabel = label)
      | ([_, _, path, file], _) =>
        (!(walSegmentDir path && walSegmentFile file) || decide (strSubN file 0 16 = path)) &&
          (!historyFileName file || decide (strSubN file 0 4 = path))
      | _ => true)

theorem placed_of_entries {storage : Storage}
    (h : ∀ e ∈ storage.entries, placedEntry storage e = true)
    (current : ∀ infoArchive, infoArchiveLoadFile storage = .ok infoArchive →
      ∃ currentPg, infoPgDataCurrent infoArchive.infoPg = .ok currentPg) : Placed storage where
  closed := by
    intro p q below nonempty entry
    obtain ⟨e, mem, rfl⟩ := lookup_isSome.mp entry
    have all := (Bool.and_eq_true_iff.mp (h e mem)).1
    rw [List.all_eq_true] at all
    simpa [nonempty] using all q ((List.mem_inits q e.1).mpr below)
  manifests := by
    intro label manifest load
    obtain ⟨file, entry⟩ := manifestLoadFile_entry load
    exact of_decide_eq_true (Bool.and_eq_true_iff.mp (h _ entry)).2
  segments := by
    intro archiveId walPath file entry isDir isFile
    obtain ⟨⟨q, node⟩, mem, same⟩ := lookup_isSome.mp entry
    have here := (Bool.and_eq_true_iff.mp (h _ mem)).2
    obtain rfl : q = [storageRepoArchive, archiveId, walPath, file] := same
    simpa [isDir, isFile] using (Bool.and_eq_true_iff.mp here).1
  history := by
    intro year file entry isFile
    obtain ⟨⟨q, node⟩, mem, same⟩ := lookup_isSome.mp entry
    have here := (Bool.and_eq_true_iff.mp (h _ mem)).2
    obtain rfl : q = [storageRepoBackup, backupPathHistory, year, file] := same
    simpa [isFile] using (Bool.and_eq_true_iff.mp here).2
  current := current

/-- The run of a repository up to the archive. -/
def untilArchive (adhoc : Option Str) (max i : Nat) : Command (InfoBackup × RepoOption) := do
  let option ← repoOptionIdx i
  let storage ← storageRepoIdx i
  let info ← infoBackupLoadFileReconstruct storage
  let state ← expireInfo info option adhoc i max
  storageWrite i (infoBackupSaveFile state.1)
  removeExpiredBackup state.1 adhoc i
  return (state.1, option)

/-- The run of a repository up to the history. -/
def untilHistory (adhoc : Option Str) (max i : Nat) : Command InfoBackup := do
  let result ← untilArchive adhoc max i
  removeExpiredArchive result.1 (result.2.retentionFullType = .time) i
  return result.1

theorem expireRepo_eq (adhoc : Option Str) (max i : Nat) :
    expireRepo adhoc max i = (do
      let result ← untilArchive adhoc max i
      removeExpiredArchive result.1 (result.2.retentionFullType = .time) i
      removeExpiredHistory result.1 i) := by
  simp only [expireRepo, untilArchive, removeExpired, bind_assoc, pure_bind]

structure Emptied (adhoc : Option Str) (i : Nat) (w : World) (label : Str) (info : InfoBackup) :
    Prop where
  asked : adhoc = some label
  loaded : (exec (infoBackupLoadFileReconstruct (w.storage i)) w).1 = .ok info
  listed : (infoBackupDataByLabel info label).isSome
  granted : Expire.expireAdhocCheck info label = .ok ⟨⟩
  empty : ¬ LeavesBackup info label

/-- What the removal of backups goes over once no backup is listed. -/
def emptiedCandidates (storage : Storage) (label : Str) (info : InfoBackup) :
    Except Error (List Str) :=
  removeCandidates storage (expiredInfo info label) (some label)
    (strLstSort (storageList storage [storageRepoBackup] labelAny) .desc)

/-- The dry run of a repository starts in a state from which it reaches none of the places where
its log is not what the real run removes. -/
structure Clear (adhoc : Option Str) (max i : Nat) (w : World) : Prop where
  leaves : ∀ label info, Emptied adhoc i w label info →
    ∃ e, emptiedCandidates (w.storage i) label info = .error e
  separate : ∀ info option w', exec (untilArchive adhoc max i) w = (.ok (info, option), w') →
    WalSeparate (w.storage i) info (w'.config.repo i)
  history : ∀ info w', exec (untilHistory adhoc max i) w = (.ok info, w') →
    ∀ days, (w'.config.repo i).retentionHistory = some days → w'.config.repoDefault ≠ i →
      HistoryShared i info days w'

variable {adhoc : Option Str} {max : Nat} {w v : World}

theorem untilArchive_mirrored (max : Nat) (mirror : Mirror S R i manifestScope w v)
    (same : v.storage i = S i) (placed : Placed (S i))
    (leaves : ∀ label info, ¬ Emptied adhoc i w label info) :
    (exec (untilArchive adhoc max i) w).1 = (exec (untilArchive adhoc max i) v).1 ∧
      Mirror S R i backupScope (exec (untilArchive adhoc max i) w).2
        (exec (untilArchive adhoc max i) v).2 := by
  have wider : ∀ p, manifestScope p → backupScope p := fun _ => Or.inl
  rw [untilArchive, exec_bind_of_ok (exec_repoOptionIdx i w),
    exec_bind_of_ok (exec_repoOptionIdx i v), exec_bind_of_ok (exec_storageRepoIdx i w),
    exec_bind_of_ok (exec_storageRepoIdx i v), mirror.option, congrFun mirror.kept i, same]
  have rest : Mirrored S R i manifestScope backupScope (fun _ => True) (do
      let info ← infoBackupLoadFileReconstruct (S i)
      let state ← expireInfo info (w.config.repo i) adhoc i max
      storageWrite i (infoBackupSaveFile state.1)
      removeExpiredBackup state.1 adhoc i
      return (state.1, w.config.repo i)) (do
      let info ← infoBackupLoadFileReconstruct (S i)
      let state ← expireInfo info (w.config.repo i) adhoc i max
      storageWrite i (infoBackupSaveFile state.1)
      removeExpiredBackup state.1 adhoc i
      return (state.1, w.config.repo i)) := by
    refine mirrored_bind (mirrored_load (S i)) (fun info loaded => ?_) wider
    obtain ⟨u, loaded⟩ := loaded
    have backed := load_backed placed.manifests loaded
    refine mirrored_bind (expireInfo_mirrored backed (w.config.repo i)
      (fun label asked listed granted => ?_) max) (fun state _ => ?_) wider
    · by_contra empty
      refine leaves label info ⟨asked, ?_, listed, granted, empty⟩
      obtain ⟨result, events, run, -⟩ := infoBackupLoadFileReconstruct_onlyLogs (S i)
      rw [run] at loaded
      rw [mirror.kept, run]
      exact loaded
    · refine mirrored_bind (infoBackupSaveFile_mirrored state.1) (fun _ _ => ?_) wider
      exact mirrored_bind (removeExpiredBackup_mirrored state.1 adhoc)
        (fun _ _ => mirrored_pure trivial) (fun _ h => h)
  obtain ⟨result, after, -⟩ := rest w v mirror
  exact ⟨result, after⟩

/-- A request that empties the list fails in the real run, where the dry run goes on to remove
what is not listed. -/
theorem untilArchive_emptied (max : Nat) (mirror : Mirror S R i manifestScope w v)
    (same : v.storage i = S i) (placed : Placed (S i)) {label : Str} {info : InfoBackup}
    (emptied : Emptied adhoc i w label info) :
    ∃ w' e v', exec (untilArchive adhoc max i) w = exec (do
        removeExpiredBackup (expiredInfo info label) (some label) i
        return (expiredInfo info label, w.config.repo i)) w' ∧
      exec (untilArchive adhoc max i) v = (.error e, v') ∧ Mirror S R i manifestScope w' v' := by
  obtain ⟨rfl, loaded, listed, granted, empty⟩ := emptied
  obtain ⟨result, events, run, kind⟩ := infoBackupLoadFileReconstruct_onlyLogs (S i)
  have backed : Backed (S i) info := load_backed placed.manifests (mirror.kept ▸ loaded)
  rw [mirror.kept, run] at loaded
  change result = .ok info at loaded
  subst loaded
  have told : Mirror S R i manifestScope { w with log := w.log ++ events }
      { v with log := v.log ++ events } := by
    refine mirror.quiet (only_log v _) (fun _ _ => rfl) (fun e he => ?_)
    have := kind e he
    cases e <;> first | exact ⟨fun _ _ => rfl, trivial⟩ | cases this
  obtain ⟨n, w', e, v', dryRun, realRun, after⟩ :=
    expireInfo_emptied told backed listed granted empty (w.config.repo i) max
  refine ⟨w', e, v', ?_, ?_, after⟩
  · rw [untilArchive, exec_bind_of_ok (exec_repoOptionIdx i w),
      exec_bind_of_ok (exec_storageRepoIdx i w), congrFun mirror.kept i, exec_bind_of_ok (run w),
      exec_bind_of_ok dryRun, exec_bind_of_ok (exec_storageWrite _ _ _), write_of_dryRun after.dry]
  · rw [untilArchive, exec_bind_of_ok (exec_repoOptionIdx i v),
      exec_bind_of_ok (exec_storageRepoIdx i v), same, exec_bind_of_ok (run v), mirror.option,
      exec_bind_of_error realRun]

/-- The dry run fails too when it cannot tell what to remove, and nothing has parted yet. -/
theorem untilArchive_undecided (max : Nat) (mirror : Mirror S R i manifestScope w v)
    (same : v.storage i = S i) (placed : Placed (S i)) {label : Str} {info : InfoBackup}
    (emptied : Emptied adhoc i w label info) {e : Error}
    (fails : emptiedCandidates (w.storage i) label info = .error e) :
    ∃ w' e' v', exec (untilArchive adhoc max i) w = (.error e, w') ∧
      exec (untilArchive adhoc max i) v = (.error e', v') ∧ Mirror S R i manifestScope w' v' := by
  obtain ⟨w', e', v', dryRun, realRun, after⟩ :=
    untilArchive_emptied max mirror same placed emptied
  have chosen : exec (orThrow (emptiedCandidates (S i) label info)) w' = (.error e, w') := by
    rw [← mirror.kept, fails]
    rfl
  have stops : exec (removeExpiredBackup (expiredInfo info label) (some label) i) w' =
      (.error e, w') := by
    rw [removeExpiredBackup, exec_bind_of_ok (exec_storageRepoIdx i w'), congrFun after.kept i]
    exact exec_bind_of_error chosen
  exact ⟨w', e', v', dryRun.trans (exec_bind_of_error stops), realRun, after⟩

theorem expireRepo_mirror (mirror : Mirror S R i manifestScope w v) (same : v.storage i = S i)
    (placed : ∀ j, Placed (S j)) (clear : Clear adhoc max i w) :
    Mirror S R i (fun _ => True) (exec (expireRepo adhoc max i) w).2
      (exec (expireRepo adhoc max i) v).2 := by
  by_cases emptied : ∃ label info, Emptied adhoc i w label info
  · obtain ⟨label, info, emptied⟩ := emptied
    obtain ⟨e, fails⟩ := clear.leaves label info emptied
    obtain ⟨w', e', v', dryRun, realRun, after⟩ :=
      untilArchive_undecided max mirror same (placed i) emptied fails
    rw [expireRepo_eq, exec_bind_of_error dryRun, exec_bind_of_error realRun]
    exact after.mono (fun _ _ => trivial)
  · obtain ⟨result, after⟩ := untilArchive_mirrored max mirror same (placed i)
      (fun label info h => emptied ⟨label, info, h⟩)
    rw [expireRepo_eq]
    refine mirror_bind result after (fun pair run => ?_) (fun _ _ => trivial)
    obtain ⟨info, option⟩ := pair
    have ran : exec (untilArchive adhoc max i) w =
        (.ok (info, option), (exec (untilArchive adhoc max i) w).2) := Prod.ext run rfl
    have separate := clear.separate info option _ ran
    rw [mirror.kept] at separate
    obtain ⟨archive, afterArchive⟩ := removeExpiredArchive_mirrored (placed i).closed
      (placed i).segments after separate (option.retentionFullType = .time)
    refine mirror_bind archive afterArchive (fun _ removed => ?_) (fun _ _ => trivial)
    refine removeExpiredHistory_mirror afterArchive (placed _).history info ?_
    refine clear.history info _ ?_
    rw [untilHistory, exec_bind_of_ok ran, exec_bind_of_ok (Prod.ext removed rfl), exec_pure]

/-- What the dry run logs of the paths of backups, the real run does not remove. -/
theorem emptied_candidates_of_exact (mirror : Mirror S R i manifestScope w v)
    (same : v.storage i = S i) (placed : Placed (S i)) {label : Str} {info : InfoBackup}
    (isLabel : labelAny label = true) (emptied : Emptied adhoc i w label info)
    (exact : Exact S i (exec (expireRepo adhoc max i) w).2 (exec (expireRepo adhoc max i) v).2) :
    ∃ e, emptiedCandidates (w.storage i) label info = .error e := by
  obtain ⟨w', e', v', dryRun, realRun, after⟩ :=
    untilArchive_emptied max mirror same placed emptied
  cases chosen : emptiedCandidates (w.storage i) label info with
  | error e => exact ⟨e, rfl⟩
  | ok candidates =>
    exfalso
    have own : storageExists (S i) (manifestFileName label) = true :=
      (load_backed placed.manifests (mirror.kept ▸ emptied.loaded)).listed emptied.listed
    have stored : ((S i).node (backupPath label)).isSome := by
      refine placed.closed (manifestFileName label) _ ⟨["backup.manifest".toList], rfl⟩
        (List.cons_ne_nil _ _) ?_
      rw [storageExists, Tree.read] at own
      cases node : (S i).node (manifestFileName label) with
      | none =>
        rw [node] at own
        cases own
      | some _ => rfl
    rw [mirror.kept] at chosen
    have mem : label ∈ candidates := by
      refine mem_removeCandidates chosen (mem_strLstSort.mpr (mem_storageList.mpr ⟨?_, isLabel⟩)) own
      exact stored
    -- The message stays in the log to the end, and nothing is listed any more.
    have told : LogEvent.removeBackup i label ∈ (exec (expireRepo adhoc max i) w).2.log := by
      rw [← after.kept] at chosen
      have removed := exec_removeExpiredBackup_dry after.dry chosen
      rw [expireRepo_eq, exec_bind_of_ok (dryRun.trans (exec_bind_of_ok removed))]
      have rest : Keeps LogGrows (do
          removeExpiredArchive (expiredInfo info label) ((w.config.repo i).retentionFullType = .time) i
          removeExpiredHistory (expiredInfo info label) i) :=
        (logGrows_frame i).bind (removeExpiredArchive_keeps (logGrows_frame i) _ _)
          (fun _ => removeExpiredHistory_keeps (logGrows_frame i) _)
      refine (rest _).subset (List.mem_append_right _ (List.mem_map_of_mem
        (List.mem_filter.mpr ⟨mem, ?_⟩)))
      have none : (expiredInfo info label).backup = [] := not_not.mp emptied.empty
      rw [infoBackupDataLabelList, none]
      rfl
    have rare : backupPath label ∉ rewritten := not_mem_rewritten_of_labelAny isLabel []
    have logged : covered i (exec (expireRepo adhoc max i) w).2.log (backupPath label) = true :=
      List.any_eq_true.mpr ⟨_, told, by simp [covers]⟩
    have gone := (exact.1 _ rare).trans (if_pos logged)
    rw [expireRepo_eq, exec_bind_of_error realRun] at gone
    change (v'.storage i).node (backupPath label) = none at gone
    rw [after.same rare (not_manifestScope_of_length (by simp [backupPath]))] at gone
    rw [gone] at stored
    cases stored

theorem untilArchive_of_exact (mirror : Mirror S R i manifestScope w v) (same : v.storage i = S i)
    (placed : Placed (S i)) (isLabel : ∀ label, adhoc = some label → labelAny label = true)
    (exact : Exact S i (exec (expireRepo adhoc max i) w).2 (exec (expireRepo adhoc max i) v).2)
    {result : InfoBackup × RepoOption} {w' : World}
    (run : exec (untilArchive adhoc max i) w = (.ok result, w')) :
    ∃ v', exec (untilArchive adhoc max i) v = (.ok result, v') ∧ Mirror S R i backupScope w' v' := by
  have leaves (label : Str) (info : InfoBackup) : ¬ Emptied adhoc i w label info := by
    intro emptied
    obtain ⟨e, fails⟩ := emptied_candidates_of_exact mirror same placed
      (isLabel label emptied.asked) emptied exact
    obtain ⟨_, _, _, dryRun, -, -⟩ :=
      untilArchive_undecided max mirror same placed emptied fails
    rw [dryRun] at run
    cases run
  obtain ⟨equal, after⟩ := untilArchive_mirrored max mirror same placed leaves
  rw [run] at equal after
  refine ⟨(exec (untilArchive adhoc max i) v).2, ?_, after⟩
  exact Prod.ext equal.symm rfl

theorem removeExpiredHistory_uncovered (dry : w.config.real = false) (info : InfoBackup)
    {rest : List Str} (uncovered : covered i w.log (storageRepoArchive :: rest) = false) :
    covered i (exec (removeExpiredHistory info i) w).2.log (storageRepoArchive :: rest) = false := by
  cases set : (w.config.repo i).retentionHistory with
  | none =>
    rw [removeExpiredHistory, exec_bind_of_ok (exec_repoOptionIdx i w), set]
    exact uncovered
  | some days =>
    rw [exec_removeExpiredHistory_dry dry info set]
    dsimp only
    rw [covered_append, uncovered, Bool.false_or, covered, List.any_eq_false]
    intro e mem
    rcases mem_historyEvents.mp mem with ⟨year, -, -, -, rfl⟩ | ⟨file, -, -, -, -, -, rfl⟩ <;>
      simp [covers, historyPath, archive_ne_backup, archive_ne_backup.symm]

theorem separate_of_exact (mirror : Mirror S R i manifestScope w v) (same : v.storage i = S i)
    (placed : Placed (S i)) (isLabel : ∀ label, adhoc = some label → labelAny label = true)
    (exact : Exact S i (exec (expireRepo adhoc max i) w).2 (exec (expireRepo adhoc max i) v).2)
    {info : InfoBackup} {option : RepoOption} {w' : World}
    (run : exec (untilArchive adhoc max i) w = (.ok (info, option), w')) :
    WalSeparate (S i) info (w'.config.repo i) := by
  obtain ⟨v', realRun, after⟩ := untilArchive_of_exact mirror same placed isLabel exact run
  intro archiveId retention scanned
  by_contra mixed
  obtain ⟨rest, stored, ends, uncovered, gone⟩ := removeExpiredArchive_unlogged placed.closed
    placed.segments placed.current after rfl (option.retentionFullType = .time) scanned mixed
  rw [expireRepo_eq, exec_bind_of_ok run, exec_bind_of_ok realRun] at exact
  have dry := (removeExpiredArchive_keeps (unchanged_frame i).toRemoveFrame info
    (option.retentionFullType = .time) w' after.dry).2
  have ran : exec (removeExpiredArchive info (option.retentionFullType = .time) i) w' =
      (.ok ⟨⟩, (exec (removeExpiredArchive info (option.retentionFullType = .time) i) w').2) :=
    Prod.ext ends rfl
  have final := removeExpiredHistory_uncovered dry info uncovered
  rw [exec_bind_of_ok ran] at exact
  have node := exact.1 _ (not_mem_rewritten_archive rest)
  rw [if_neg (Bool.eq_false_iff.mp final), exec_bind] at node
  rw [← node] at stored
  rcases hr : exec (removeExpiredArchive info (option.retentionFullType = .time) i) v'
    with ⟨_ | _, v''⟩ <;> rw [hr] at gone stored
  · dsimp only at gone stored
    rw [gone] at stored
    cases stored
  · have still := removeExpiredHistory_keeps (shrunk_frame i (storageRepoArchive :: rest) i) info
      v'' gone
    dsimp only at stored
    rw [still] at stored
    cases stored

theorem clear_of_exact (mirror : Mirror S R i manifestScope w v) (same : v.storage i = S i)
    (placed : ∀ j, Placed (S j)) (isLabel : ∀ label, adhoc = some label → labelAny label = true)
    (exact : Exact S i (exec (expireRepo adhoc max i) w).2 (exec (expireRepo adhoc max i) v).2) :
    Clear adhoc max i w where
  leaves := fun label _ emptied => emptied_candidates_of_exact mirror same (placed i)
    (isLabel label emptied.asked) emptied exact
  separate := by
    intro info option w' run
    rw [mirror.kept]
    exact separate_of_exact mirror same (placed i) isLabel exact run
  history := by
    intro info w' run days set _
    obtain ⟨⟨listed, option⟩, w₁, first, second⟩ := exec_bind_ok run
    obtain ⟨_, w₂, removed, last⟩ := exec_bind_ok second
    cases last
    obtain ⟨v₁, realRun, after⟩ :=
      untilArchive_of_exact mirror same (placed i) isLabel exact first
    obtain ⟨equal, afterArchive⟩ := removeExpiredArchive_mirrored (placed i).closed
      (placed i).segments after
      (separate_of_exact mirror same (placed i) isLabel exact first)
      (option.retentionFullType = .time)
    rw [removed] at equal afterArchive
    have ran : exec (removeExpiredArchive listed (option.retentionFullType = .time) i) v₁ =
        (.ok ⟨⟩, (exec (removeExpiredArchive listed (option.retentionFullType = .time) i) v₁).2) :=
      Prod.ext equal.symm rfl
    rw [expireRepo_eq, exec_bind_of_ok first, exec_bind_of_ok realRun, exec_bind_of_ok removed,
      exec_bind_of_ok ran] at exact
    exact historyShared_of_exact afterArchive (placed _).history set exact

end Repo

section Between
variable {S : Nat → Storage} {R : List Nat} {i : Nat} {adhoc : Option Str} {max : Nat} {w v : World}

/-- The states of the two runs between two repositories, with those still to come. -/
structure Between (S : Nat → Storage) (todo : List Nat) (w v : World) : Prop
    extends Alike S w v where
  fresh : ∀ j ∈ todo, (∀ p, covered j w.log p = false) ∧ v.storage j = S j

theorem Between.start (between : Between S (i :: R) w v) (once : i ∉ R) :
    Mirror S R i manifestScope w v := by
  refine ⟨between.toAlike, fun p h => ?_, fun j hj => ?_⟩
  · rw [(between.fresh i List.mem_cons_self).1 p] at h
    cases h
  · exact ⟨ne_of_mem_of_not_mem hj once, between.fresh j (List.mem_cons_of_mem i hj)⟩

theorem Between.finish (mirror : Mirror S R i (fun _ => True) w v) : Between S R w v :=
  ⟨mirror.toAlike, fun j hj => (mirror.fresh j hj).2⟩

/-- The error of a repository is one more message, which covers nothing. -/
theorem expireRepoCatch_log (adhoc : Option Str) (max total i : Nat) (w : World) :
    ∃ events, (∀ e ∈ events, Silent S e) ∧ (exec (expireRepoCatch adhoc max total i) w).2 =
      { (exec (expireRepo adhoc max i) w).2 with
        log := (exec (expireRepo adhoc max i) w).2.log ++ events } := by
  obtain ⟨total', run⟩ := exec_expireRepoCatch adhoc max total i w
  rw [run]
  rcases exec (expireRepo adhoc max i) w with ⟨e | u, w'⟩
  · refine ⟨[.repoError i e], fun event he => ?_, rfl⟩
    rw [List.mem_singleton.mp he]
    exact ⟨fun _ _ => rfl, trivial⟩
  · exact ⟨[], by simp, by simp⟩

theorem covered_silent {log events : List LogEvent} (silent : ∀ e ∈ events, Silent S e)
    (p : List Str) : covered i (log ++ events) p = covered i log p := by
  rw [covered_append]
  have none : covered i events p = false := by
    rw [covered, List.any_eq_false]
    intro e he
    rw [(silent e he).1 i p]
    exact Bool.false_ne_true
  rw [none, Bool.or_false]

theorem expireRepoCatch_between (between : Between S (i :: R) w v) (once : i ∉ R)
    (placed : ∀ j, Placed (S j)) (clear : Clear adhoc max i w) (total total' : Nat) :
    Between S R (exec (expireRepoCatch adhoc max total i) w).2
      (exec (expireRepoCatch adhoc max total' i) v).2 := by
  have after := expireRepo_mirror (between.start once) (between.fresh i List.mem_cons_self).2
    placed clear
  obtain ⟨events, silent, dryRun⟩ := expireRepoCatch_log (S := S) adhoc max total i w
  obtain ⟨events', -, realRun⟩ := expireRepoCatch_log (S := S) adhoc max total' i v
  rw [dryRun, realRun]
  exact Between.finish (after.quiet (only_log _ _) (fun _ _ => rfl) silent)

theorem expireRepoCatch_clear (between : Between S (i :: R) w v) (once : i ∉ R)
    (placed : ∀ j, Placed (S j)) (isLabel : ∀ label, adhoc = some label → labelAny label = true)
    {total total' : Nat} (exact : Exact S i (exec (expireRepoCatch adhoc max total i) w).2
      (exec (expireRepoCatch adhoc max total' i) v).2) : Clear adhoc max i w := by
  obtain ⟨events, silent, dryRun⟩ := expireRepoCatch_log (S := S) adhoc max total i w
  obtain ⟨events', -, realRun⟩ := expireRepoCatch_log (S := S) adhoc max total' i v
  rw [dryRun, realRun] at exact
  refine clear_of_exact (between.start once) (between.fresh i List.mem_cons_self).2 placed isLabel
    ⟨fun p rare => ?_, fun e he => exact.2 e (List.mem_append_left _ he)⟩
  have node := exact.1 p rare
  dsimp only at node
  rwa [covered_silent silent] at node

end Between

section Elsewhere
variable {S : Nat → Storage} {i j : Nat} {w w' v v' : World}

/-- Nothing of the repository is removed or logged. -/
structure Elsewhere (i : Nat) (w w' : World) : Prop where
  storage : w'.storage i = w.storage i
  log : w.log <+: w'.log
  covered : ∀ p, covered i w'.log p = covered i w.log p

theorem elsewhere_log {event : LogEvent} (uncovered : ∀ p, covers i event p = false) :
    Keeps (Elsewhere i) (logEvent event) := by
  refine fun w => ⟨rfl, List.prefix_append _ _, fun p => ?_⟩
  rw [exec_logEvent]
  dsimp only
  rw [covered_append]
  simp [DryRun.covered, uncovered]

theorem elsewhere_write (other : j ≠ i) (change : Storage → Storage) :
    Keeps (Elsewhere i) (storageWrite j change) := by
  intro w
  rw [exec_storageWrite]
  exact ⟨write_storage_of_ne (Ne.symm other), by rw [write_log], fun p => by rw [write_log]⟩

/-- Another repository leaves all of it as it is. -/
theorem elsewhere_frame (other : j ≠ i) : Frame (Elsewhere i) j where
  refl := fun w => ⟨rfl, List.prefix_rfl, fun _ => rfl⟩
  trans := fun _ _ _ first rest => ⟨rest.storage.trans first.storage, first.log.trans rest.log,
    fun p => (rest.covered p).trans (first.covered p)⟩
  write := fun _ => elsewhere_write other _
  log := by
    intro event removal
    refine elsewhere_log (fun p => ?_)
    cases event with
    | expire kind repoIdx labels => cases removal
    | removeBackup repoIdx label | removeArchivePath repoIdx label | removeArchive repoIdx id a b
    | removeHistoryFile repoIdx id file | removeHistoryPath repoIdx year
    | removeHistoryManifest repoIdx file =>
      cases removal
      simp [covers, other]
    | _ => rfl
  save := elsewhere_write other
  expireLog := fun _ _ => elsewhere_log (fun p => by simp [covers, other])
  set := fun _ _ => ⟨rfl, List.prefix_rfl, fun _ => rfl⟩
  found := fun _ => ⟨rfl, List.prefix_rfl, fun _ => rfl⟩

theorem Elsewhere.exact (dryRun : Elsewhere i w w') (realRun : Elsewhere i v v')
    (exact : Exact S i w' v') : Exact S i w v := by
  refine ⟨fun p rare => ?_, fun e he => exact.2 e (dryRun.log.subset he)⟩
  rw [← realRun.storage, ← dryRun.covered]
  exact exact.1 p rare

end Elsewhere

section Command
variable {S : Nat → Storage} {adhoc : Option Str} {max : Nat}

/-- Every repository of the dry run starts in a clear state. -/
def RunClear (adhoc : Option Str) (max : Nat) : List Nat → World → Prop
  | [], _ => True
  | i :: rest, w =>
    Clear adhoc max i w ∧ RunClear adhoc max rest (exec (expireRepoCatch adhoc max 0 i) w).2

/-- The number of errors so far does not change what a repository does. -/
theorem expireRepoCatch_total (total i : Nat) (w : World) :
    (exec (expireRepoCatch adhoc max total i) w).2 =
      (exec (expireRepoCatch adhoc max 0 i) w).2 := by
  obtain ⟨n, counted⟩ := exec_expireRepoCatch adhoc max total i w
  obtain ⟨n', first⟩ := exec_expireRepoCatch adhoc max 0 i w
  rw [counted, first]

theorem expireRepoCatch_next (adhoc : Option Str) (max total i : Nat) (todo : List Nat) (w : World) :
    ∃ total', exec ((i :: todo).foldlM (expireRepoCatch adhoc max) total) w =
      exec (todo.foldlM (expireRepoCatch adhoc max) total')
        (exec (expireRepoCatch adhoc max 0 i) w).2 := by
  obtain ⟨total', run⟩ := exec_expireRepoCatch adhoc max total i w
  refine ⟨total', ?_⟩
  rw [List.foldlM_cons, exec_bind_of_ok run, ← expireRepoCatch_total total, run]

theorem foldlM_between {todo : List Nat} (once : todo.Nodup) {w v : World}
    (between : Between S todo w v) (placed : ∀ j, Placed (S j))
    (clear : RunClear adhoc max todo w) (total total' : Nat) :
    Between S [] (exec (todo.foldlM (expireRepoCatch adhoc max) total) w).2
      (exec (todo.foldlM (expireRepoCatch adhoc max) total') v).2 := by
  induction todo generalizing w v total total' with
  | nil => exact between
  | cons i rest ih =>
    obtain ⟨here, later⟩ := clear
    obtain ⟨fresh, once⟩ := List.nodup_cons.mp once
    obtain ⟨n, runW⟩ := expireRepoCatch_next adhoc max total i rest w
    obtain ⟨n', runV⟩ := expireRepoCatch_next adhoc max total' i rest v
    rw [runW, runV]
    exact ih once (expireRepoCatch_between between fresh placed here 0 0) later n n'

/-- A log that is exact of every repository in the end was so after each of them. -/
theorem foldlM_clear {todo : List Nat} (once : todo.Nodup) {w v : World}
    (between : Between S todo w v) (placed : ∀ j, Placed (S j))
    (isLabel : ∀ label, adhoc = some label → labelAny label = true) (total total' : Nat)
    (exact : ∀ i ∈ todo, Exact S i (exec (todo.foldlM (expireRepoCatch adhoc max) total) w).2
      (exec (todo.foldlM (expireRepoCatch adhoc max) total') v).2) :
    RunClear adhoc max todo w := by
  induction todo generalizing w v total total' with
  | nil => trivial
  | cons i rest ih =>
    obtain ⟨fresh, once⟩ := List.nodup_cons.mp once
    obtain ⟨n, runW⟩ := expireRepoCatch_next adhoc max total i rest w
    obtain ⟨n', runV⟩ := expireRepoCatch_next adhoc max total' i rest v
    rw [runW, runV] at exact
    have others (n : Nat) : Keeps (Elsewhere i) (rest.foldlM (expireRepoCatch adhoc max) n) := by
      have base := (elsewhere_frame (Nat.succ_ne_self i)).toRemoveFrame
      refine base.foldlM rest (fun total j hj => ?_) n
      exact expireRepoCatch_keeps (elsewhere_frame (ne_of_mem_of_not_mem hj fresh)) adhoc max total
    have here := expireRepoCatch_clear between fresh placed isLabel
      ((others n _).exact (others n' _) (exact i List.mem_cons_self))
    exact ⟨here, ih once (expireRepoCatch_between between fresh placed here 0 0) n n'
      (fun j hj => exact j (List.mem_cons_of_mem i hj))⟩

/-- The command begins with or without `--dry-run`. -/
def started (w : World) (dryRun : Bool) : World :=
  { w with config := { w.config with dryRun := some dryRun }, log := [], adhocBackupFound := false }

theorem between_started (w : World) (todo : List Nat) :
    Between w.storage todo (started w true) (started w false) where
  kept := rfl
  now := rfl
  timeText := rfl
  config := rfl
  found := rfl
  dryRun := rfl
  node := fun _ _ _ => rfl
  named := fun _ h => absurd h List.not_mem_nil
  fresh := fun _ _ => ⟨fun _ => rfl, rfl⟩

/-- Once the label given with `--set` looks like one, the repositories of the command are clear one
after another. -/
def CommandClear (w : World) : Prop :=
  (setCheck w.config : Except Error PUnit.{1}) = .ok ⟨⟩ →
    RunClear w.config.set ((repoRange w.config).getLast?.getD 0) (repoRange w.config) (started w true)

/-- The log of a dry run says of every path whether the same command without `--dry-run` removes
it, and says so of nothing that is not there. -/
def Predicts (w : World) : Prop :=
  (∀ i p, p ∉ rewritten → ((exec cmdExpire (started w false)).2.storage i).node p =
    if covered i (exec cmdExpire (started w true)).2.log p then none
    else (w.storage i).node p) ∧
  ∀ e ∈ (exec cmdExpire (started w true)).2.log, Names w.storage e

/-- A dry run changes no storage, and its log predicts the same command without `--dry-run`
exactly when the command is clear. -/
theorem cmdExpire_dryRun_exact (w : World) :
    (exec cmdExpire (started w true)).2.storage = w.storage ∧
    ((∀ i, Placed (w.storage i)) → (Predicts w ↔ CommandClear w)) := by
  refine ⟨(cmdExpire_keeps unchanged_frame (started w true) rfl).1, fun placed => ?_⟩
  have range (dryRun : Bool) : repoRange (started w dryRun).config = repoRange w.config := rfl
  have set (dryRun : Bool) : (started w dryRun).config.set = w.config.set := rfl
  have check (dryRun : Bool) : (setCheck (started w dryRun).config : Except Error PUnit.{1}) =
      setCheck w.config := rfl
  rw [Predicts, CommandClear, cmdExpire_state, cmdExpire_state, check, check, range, range, set, set]
  cases granted : (setCheck w.config : Except Error PUnit.{1}) with
  | error e =>
    have none := between_started w []
    exact ⟨fun _ => nofun, fun _ => ⟨none.node, none.named⟩⟩
  | ok _ =>
    have start := between_started w (repoRange w.config)
    constructor
    · rintro ⟨node, named⟩ -
      refine foldlM_clear (repoRange_nodup w.config) start placed (fun label asked => ?_) 0 0
        (fun i _ => ⟨node i, named⟩)
      rw [setCheck, asked] at granted
      by_contra other
      rw [Bool.not_eq_true] at other
      simp [other] at granted
    · intro clear
      have finish := foldlM_between (repoRange_nodup w.config) start placed (clear rfl) 0 0
      exact ⟨finish.node, finish.named⟩

end Command

section Runs

def oldYear : Str := "2019".toList

def archiveDir : Str := "9.6-1".toList

def fullData (label wal : String) : InfoBackupData where
  backupLabel := label.toList
  backupPgId := 1
  backupArchiveStart := some wal.toList
  backupArchiveStop := some wal.toList

def firstData : InfoBackupData := fullData "20200101-000000F" "000000010000000000000001"
def lastData : InfoBackupData := fullData "20200102-000000F" "000000010000000300000000"

def manifestOf (data : InfoBackupData) : RepoFile :=
  .manifest { data := { backupLabel := data.backupLabel } }

def oneCluster : InfoPg := ⟨[⟨1, 1, 1, 90600⟩], 0⟩

/-- The entries of a repository: the paths with their parents, the info files, two backups and the
manifest of an older one in the history, and the given directories and segments of WAL. -/
def walStorage (paths : List (List Str)) (segments : List (List Str)) : Storage :=
  ⟨[([storageRepoBackup], .dir),
    (infoBackupFile, .file (.infoBackup ⟨oneCluster, [firstData, lastData]⟩)),
    (backupPath firstData.backupLabel, .dir),
    (manifestFileName firstData.backupLabel, .file (manifestOf firstData)),
    (backupPath lastData.backupLabel, .dir),
    (manifestFileName lastData.backupLabel, .file (manifestOf lastData)),
    (backupPath backupPathHistory, .dir),
    (historyPath oldYear, .dir),
    (historyPath oldYear ++ ["20191231-000000F.manifest.gz".toList], .file .other),
    ([storageRepoArchive], .dir),
    (infoArchiveFile, .file (.infoArchive ⟨oneCluster⟩)),
    (archivePath archiveDir, .dir)] ++
    paths.map (fun p => (archivePath archiveDir ++ p, .dir)) ++
    segments.map (fun p => (archivePath archiveDir ++ p, .file .other))⟩

/-- Two repositories with the same content, where only the second one expires its history. -/
def walWorld (storage : Storage) : World where
  now := 0
  timeText := fun _ => "20200101-000000".toList
  config := {
    repoTotal := 2
    repo := fun i => {
      retentionFull := some 1
      retentionArchive := some 1
      retentionHistory := if i = 1 then some 0 else none } }
  storage := fun _ => storage

def oldPath : Str := "0000000100000000".toList
def midPath : Str := "0000000100000002".toList
def newPath : Str := "0000000100000003".toList
def oldSegment : Str := "000000010000000000000001-a".toList
def midSegment : Str := "000000010000000200000000-a".toList
def newSegment : Str := "000000010000000300000000-a".toList

/-- WAL before the range of the last backup stands in one directory. -/
def onePath : Storage := walStorage [[oldPath], [newPath]] [[oldPath, oldSegment], [newPath, newSegment]]

/-- It stands in two directories. -/
def twoPaths : Storage :=
  walStorage [[oldPath], [midPath], [newPath]]
    [[oldPath, oldSegment], [midPath, midSegment], [newPath, newSegment]]

theorem onePath_placed : Placed onePath := by
  refine placed_of_entries (by decide +kernel) (fun infoArchive load => ?_)
  cases load
  exact ⟨_, rfl⟩

theorem onePath_separate (option : RepoOption) (one : option.retentionArchive = some 1)
    (full : option.retentionArchiveType = .full) :
    WalSeparate onePath ⟨oneCluster, [lastData]⟩ option := by
  intro archiveId retention scanned
  obtain ⟨infoArchive, load, -, mem⟩ := scanned.listed
  have selected := scanned.selected
  rw [one, full] at selected
  cases load
  obtain rfl := List.mem_singleton.mp mem
  cases selected
  decide

set_option maxRecDepth 4000 in
theorem onePath_clear : CommandClear (walWorld onePath) := by
  have first : Clear none 1 0 (started (walWorld onePath) true) := by
    refine ⟨fun label info emptied => (nomatch emptied.asked), ?_, ?_⟩
    · intro info option w' run
      cases run
      exact onePath_separate _ rfl rfl
    · intro info w' run days set
      cases run
      cases set
  have second : Clear none 1 1
      (exec (expireRepoCatch none 1 0 0) (started (walWorld onePath) true)).2 := by
    refine ⟨fun label info emptied => (nomatch emptied.asked), ?_, ?_⟩
    · intro info option w' run
      cases run
      exact onePath_separate _ rfl rfl
    · intro info w' run days set _ e mem
      cases run
      cases set
      obtain rfl := List.mem_singleton.mp mem
      exact ⟨rfl, List.mem_singleton.mpr rfl⟩
  exact fun _ => ⟨first, second, trivial⟩

/-- The log of the dry run covers the older segment in both repositories, and the history in the
second one alone, and the real run removes what it covers. -/
theorem cmdExpire_dryRun_exact_onePath :
    Predicts (walWorld onePath) ∧
      ((exec cmdExpire (started (walWorld onePath) false)).2.storage 0).node
        (archivePath archiveDir ++ [oldPath, oldSegment]) = none ∧
      ((exec cmdExpire (started (walWorld onePath) false)).2.storage 0).node
        (historyPath oldYear) = onePath.node (historyPath oldYear) ∧
      ((exec cmdExpire (started (walWorld onePath) false)).2.storage 1).node
        (historyPath oldYear) = none := by
  have predicts := ((cmdExpire_dryRun_exact (walWorld onePath)).2 (fun _ => onePath_placed)).mpr
    onePath_clear
  have segment : covered 0 (exec cmdExpire (started (walWorld onePath) true)).2.log
      (archivePath archiveDir ++ [oldPath, oldSegment]) = true := by decide +kernel
  have kept : covered 0 (exec cmdExpire (started (walWorld onePath) true)).2.log
      (historyPath oldYear) = false := by decide +kernel
  have expired : covered 1 (exec cmdExpire (started (walWorld onePath) true)).2.log
      (historyPath oldYear) = true := by decide +kernel
  refine ⟨predicts, ?_, ?_, ?_⟩
  · rw [predicts.1 0 _ (by decide), if_pos segment]
  · rw [predicts.1 0 _ (by decide), if_neg (Bool.eq_false_iff.mp kept)]
    rfl
  · rw [predicts.1 1 _ (by decide), if_pos expired]

/-- Two directories before the range are removed, and only the second one is logged. -/
theorem cmdExpire_dryRun_incomplete :
    ((walWorld twoPaths).storage 0).node (archivePath archiveDir ++ [oldPath, oldSegment]) ≠ none ∧
      ((exec cmdExpire (started (walWorld twoPaths) false)).2.storage 0).node
        (archivePath archiveDir ++ [oldPath, oldSegment]) = none ∧
      covered 0 (exec cmdExpire (started (walWorld twoPaths) true)).2.log
        (archivePath archiveDir ++ [oldPath, oldSegment]) = false := by
  decide +kernel

end Runs

end DryRunExact
