import Backrest.DryRunRemove
import Backrest.ExpireFrame

/-!
# Where a dry run and the real run part

A WAL directory that is removed whole while a range is pending leaves a path
that the real run removes and no message covers. A request that leaves no backup
listed makes the real run fail where the dry run goes on to log the paths of
backups. What has parted once stays parted to the end of the repository.
-/

namespace DryRunParted

open Text LexOrder BackupCommon BackupManifest BackupInfo FileTree Effects Repository Expire
open ExpireArchive ExpireCommand ExpireFrame RangeScan WalScan DryRun DryRunExpire DryRunRemove

variable {S : Nat → Storage} {R : List Nat} {i : Nat} {w v : World}

section Frames

/-- A path that is not there is not added. -/
def Shrunk (i : Nat) (p : List Str) (v v' : World) : Prop :=
  (v.storage i).node p = none → (v'.storage i).node p = none

theorem shrunk_frame (i : Nat) (p : List Str) (j : Nat) : RemoveFrame (Shrunk i p) j where
  refl := fun _ absent => absent
  trans := fun _ _ _ first rest absent => rest (first absent)
  write := by
    intro change shrinks v absent
    change ((v.write j change).storage i).node p = none
    by_cases here : i = j
    · subst here
      rw [write_storage_self]
      split
      · exact shrinks _ p absent
      · exact absent
    · rw [write_storage_of_ne here]
      exact absent
  log := fun _ _ absent => absent

/-- Messages are only added. -/
def LogGrows (w w' : World) : Prop := w.log <+: w'.log

theorem logGrows_frame (j : Nat) : RemoveFrame LogGrows j where
  refl := fun _ => List.prefix_rfl
  trans := fun _ _ _ first rest => first.trans rest
  write := by
    intro change _ w
    change w.log <+: (w.write j change).log
    rw [write_log]
  log := fun _ _ => List.prefix_append _ _

end Frames

section Archive
variable {info : InfoBackup} {global : List Str} {archiveRetention : Nat} {archiveId : Str}
  {infoArchivePg : InfoPg} {disk disk' : List Str}

theorem removeExpiredArchiveId_dryRuns {K : LogEvent → Prop}
    (current : ∃ currentPg, infoPgDataCurrent infoArchivePg = .ok currentPg)
    (silent : ∀ e, Silent S e → K e)
    (path : localBackupRetentionList info global (archivePgId archiveId) = [] →
      K (.removeArchivePath i archiveId))
    (range : ∀ retention,
      archiveRetentionSelect info global archiveRetention (archivePgId archiveId) = some retention →
      ∀ r ∈ RangeScan.ranges none (scanTokens (S i) info archiveId retention),
        K (rangeEvent i archiveId r))
    (file : ∀ file, K (.removeHistoryFile i archiveId file)) :
    DryRuns S K (removeExpiredArchiveId info global archiveRetention infoArchivePg disk i
      archiveId) := by
  obtain ⟨currentPg, current⟩ := current
  rw [removeExpiredArchiveId]
  split
  · split
    · rename_i empty
      rw [current]
      refine DryRuns.bind (dryRuns_pure currentPg) (fun currentPg => ?_)
      split
      · exact DryRuns.bind (dryRuns_logEvent (path (List.isEmpty_iff.mp empty)))
          (fun _ => dryRuns_storageWrite i _)
      · exact dryRuns_pure _
    · split
      · exact dryRuns_pure _
      · rename_i retention selected
        split
        · exact dryRuns_pure _
        · rename_i start hstart
          intro w kept dry
          obtain ⟨before, extra, quiet, quiet', run⟩ := exec_removeWal_dry (i := i) S dry archiveId
            (archiveIdBackupList info (archivePgId archiveId)) retention start
          rw [exec_removeHistoryFiles_dry (by exact dry)] at run
          simp only [List.append_assoc] at run
          refine ⟨⟨⟩, _, run, fun e he => ?_⟩
          simp only [List.mem_append] at he
          rcases he with he | he | he | he
          · exact silent e (quiet e he)
          · rw [kept] at he
            obtain ⟨r, hr, rfl⟩ := List.mem_map.mp he
            exact range retention selected r hr
          · exact silent e (quiet' e he)
          · obtain ⟨f, -, rfl⟩ := List.mem_map.mp he
            exact file f
  · exact dryRuns_pure _

structure Unlogged (storage : Storage) (info : InfoBackup) (global : List Str)
    (archiveRetention : Nat) (archiveId : Str) (retention : InfoBackupData) (walPath : Str)
    (rest : List Str) : Prop where
  selected : archiveRetentionSelect info global archiveRetention (archivePgId archiveId) =
    some retention
  online : retention.backupArchiveStart.isSome
  listed : walPath ∈ walPathList storage archiveId
  stored : (storage.node (archivePath archiveId ++ walPath :: rest)).isSome
  expired : expiredBelow (archiveRangeList (archiveIdBackupList info (archivePgId archiveId))
    retention) (archiveExpireMax (archiveIdBackupList info (archivePgId archiveId)) retention)
    walPath rest = true
  apart : ∀ r ∈ RangeScan.ranges none (scanTokens storage info archiveId retention),
    coversRange archiveId r.1 r.2 (archivePath archiveId ++ walPath :: rest) = false

variable {retention : InfoBackupData} {walPath : Str} {rest : List Str}

theorem Unlogged.dryRuns
    (unlogged : Unlogged (S i) info global archiveRetention archiveId retention walPath rest)
    (current : ∃ currentPg, infoPgDataCurrent infoArchivePg = .ok currentPg) (id : Str) :
    DryRuns S (fun e => covers i e (archivePath archiveId ++ walPath :: rest) = false)
      (removeExpiredArchiveId info global archiveRetention infoArchivePg disk i id) := by
  have dir := (mem_walPathList.mp unlogged.listed).2
  refine removeExpiredArchiveId_dryRuns current (fun e silent => silent.1 i _) (fun empty => ?_)
    (fun retention' selected r hr => ?_) (fun file => ?_)
  · have other : id ≠ archiveId := by
      rintro rfl
      have selected := unlogged.selected
      rw [archiveRetentionSelect_of_nil empty] at selected
      cases selected
    simp [covers, archivePath, List.cons_prefix_cons, other]
  · by_cases here : id = archiveId
    · subst here
      rw [unlogged.selected] at selected
      cases selected
      simp [covers, rangeEvent, unlogged.apart r hr]
    · simp [covers, rangeEvent, coversRange, archivePath, Ne.symm here]
  · by_cases same : walPath = file
    · simp [covers, ← same, not_history_of_walSegmentDir dir]
    · simp [covers, archivePath, same]

theorem Unlogged.removed (infoArchivePg : InfoPg) (mirror : Mirror S R i archiveScope w v) (closed : Closed (S i))
    (unlogged : Unlogged (S i) info global archiveRetention archiveId retention walPath rest)
    (onDisk : archiveId ∈ disk') :
    ((exec (removeExpiredArchiveId info global archiveRetention infoArchivePg disk' i archiveId)
      v).2.storage i).node (archivePath archiveId ++ walPath :: rest) = none := by
  obtain ⟨start, hstart⟩ := Option.isSome_iff_exists.mp unlogged.online
  have nonempty : ¬ (localBackupRetentionList info global (archivePgId archiveId)).isEmpty = true := by
    intro empty
    have selected := unlogged.selected
    rw [archiveRetentionSelect_of_nil (List.isEmpty_iff.mp empty)] at selected
    cases selected
  obtain ⟨v', removes, run⟩ := exec_removeWal_real (i := i) mirror.real archiveId
    (archiveIdBackupList info (archivePgId archiveId)) retention start
  rw [removeExpiredArchiveId, if_pos onDisk, if_neg nonempty, unlogged.selected]
  dsimp only
  rw [hstart]
  dsimp only
  rw [run]
  refine removeHistoryFiles_keeps (shrunk_frame i _ i) archiveId _ v' ?_
  rw [removes.node]
  by_cases entry : (v.storage i).node (archivePath archiveId ++ walPath :: rest) = none
  · rw [entry, ite_self]
  · have dir := (mem_walPathList.mp unlogged.listed).2
    obtain ⟨-, here⟩ := walPathList_listed mirror closed dir entry
    rw [if_pos (List.any_eq_true.mpr
      ⟨walPath, here, expiredPath_iff.mpr ⟨rest, rfl, unlogged.expired⟩⟩)]

/-- An archive id whose scan is not separate, among those to come, has a path that the real run
removes and the dry run does not log. -/
theorem removeExpiredArchiveId_foldlM_unlogged (closed : Closed (S i))
    (named : SegmentsNamed (S i))
    (current : ∃ currentPg, infoPgDataCurrent infoArchivePg = .ok currentPg)
    (same : ∀ id, id ∈ disk' ↔ id ∈ disk)
    (stored : ∀ id ∈ disk, ((S i).node (archivePath id)).isSome) {ids : List Str}
    (mirror : Mirror S R i archiveScope w v)
    (mixed : ∃ id ∈ ids, ∃ retention, id ∈ disk ∧
      archiveRetentionSelect info global archiveRetention (archivePgId id) = some retention ∧
      retention.backupArchiveStart.isSome ∧
      ¬ Separate false (scanTokens (S i) info id retention)) :
    ∃ id retention walPath rest,
      Unlogged (S i) info global archiveRetention id retention walPath rest ∧
      ((exec (ids.foldlM (fun _ id => removeExpiredArchiveId info global archiveRetention
        infoArchivePg disk' i id) ⟨⟩) v).2.storage i).node
          (archivePath id ++ walPath :: rest) = none := by
  induction ids generalizing w v with
  | nil =>
    obtain ⟨id, mem, -⟩ := mixed
    cases mem
  | cons a ids ih =>
    by_cases here : ∃ retention, a ∈ disk ∧
      archiveRetentionSelect info global archiveRetention (archivePgId a) = some retention ∧
      retention.backupArchiveStart.isSome ∧ ¬ Separate false (scanTokens (S i) info a retention)
    · obtain ⟨retention, onDisk, selected, online, notSeparate⟩ := here
      obtain ⟨walPath, listed, rest, stored, expired, apart⟩ := exists_unlogged named notSeparate
      have unlogged : Unlogged (S i) info global archiveRetention a retention walPath rest :=
        ⟨selected, online, listed, stored, expired, apart⟩
      refine ⟨a, retention, walPath, rest, unlogged, ?_⟩
      have gone := unlogged.removed infoArchivePg mirror closed ((same a).mpr onDisk)
      have frame := shrunk_frame i (archivePath a ++ walPath :: rest) i
      rw [List.foldlM_cons, exec_bind]
      rcases hr : exec (removeExpiredArchiveId info global archiveRetention infoArchivePg disk' i a) v
        with ⟨_ | _, v'⟩ <;> rw [hr] at gone
      · exact gone
      · exact frame.foldlM ids (fun _ id _ => removeExpiredArchiveId_keeps frame _ _ _ _ _ id) _ v' gone
    · have separate : ∀ retention, a ∈ disk →
          archiveRetentionSelect info global archiveRetention (archivePgId a) = some retention →
          retention.backupArchiveStart.isSome → Separate false (scanTokens (S i) info a retention) := by
        intro retention onDisk selected online
        by_contra notSeparate
        exact here ⟨retention, onDisk, selected, online, notSeparate⟩
      have step := removeExpiredArchiveId_mirrored (R := R) closed named separate infoArchivePg
        (same a) (stored a)
      obtain ⟨same', after, -⟩ := step w v mirror
      have dryRuns : DryRuns S (fun _ => True)
          (removeExpiredArchiveId info global archiveRetention infoArchivePg disk i a) :=
        removeExpiredArchiveId_dryRuns current (fun _ _ => trivial) (fun _ => trivial)
          (fun _ _ _ _ => trivial) (fun _ => trivial)
      obtain ⟨_, events, run, -⟩ := dryRuns w mirror.kept mirror.dry
      rw [run] at same'
      have real : exec (removeExpiredArchiveId info global archiveRetention infoArchivePg disk' i a) v =
          (.ok ⟨⟩, (exec (removeExpiredArchiveId info global archiveRetention infoArchivePg disk' i
            a) v).2) := Prod.ext same'.symm rfl
      obtain ⟨id, mem, retention, rest⟩ := mixed
      have later : id ∈ ids := by
        rcases List.mem_cons.mp mem with rfl | later
        · exact absurd ⟨retention, rest⟩ here
        · exact later
      obtain ⟨id, retention, walPath, rest, unlogged, gone⟩ := ih after ⟨id, later, retention, rest⟩
      refine ⟨id, retention, walPath, rest, unlogged, ?_⟩
      rw [List.foldlM_cons, exec_bind_of_ok real]
      exact gone

/-- A scan that is not separate leaves a path that only the real run takes note of. -/
theorem removeExpiredArchive_unlogged (closed : Closed (S i)) (named : SegmentsNamed (S i))
    (current : ∀ infoArchive, infoArchiveLoadFile (S i) = .ok infoArchive →
      ∃ currentPg, infoPgDataCurrent infoArchive.infoPg = .ok currentPg)
    (mirror : Mirror S R i backupScope w v) {option : RepoOption}
    (option_eq : w.config.repo i = option) (timeBased : Bool)
    (scanned : Scanned (S i) info option archiveId retention)
    (mixed : ¬ Separate false (scanTokens (S i) info archiveId retention)) :
    ∃ rest, ((S i).node (storageRepoArchive :: rest)).isSome ∧
      (exec (removeExpiredArchive info timeBased i) w).1 = .ok ⟨⟩ ∧
      covered i (exec (removeExpiredArchive info timeBased i) w).2.log
        (storageRepoArchive :: rest) = false ∧
      ((exec (removeExpiredArchive info timeBased i) v).2.storage i).node
        (storageRepoArchive :: rest) = none := by
  obtain ⟨infoArchive, loaded, agree, mem⟩ := scanned.listed
  have enough : (!(globalBackupRetentionList info option.retentionArchiveType).isEmpty &&
      decide (option.retentionArchive.getD 0 ≤
        (globalBackupRetentionList info option.retentionArchiveType).length)) = true := by
    have nonempty : globalBackupRetentionList info option.retentionArchiveType ≠ [] :=
      List.ne_nil_of_length_pos (lt_of_lt_of_le scanned.set scanned.enough)
    simp [nonempty, scanned.enough]
  have listed : archiveId ∈ infoArchive.infoPg.history.reverse.map infoPgArchiveId := by
    rwa [List.map_reverse, List.mem_reverse]
  have run {u : World} (own : u.config.repo i = option)
      (load : infoArchiveLoadFile (u.storage i) = .ok infoArchive) :
      exec (removeExpiredArchive info timeBased i) u =
        exec ((infoArchive.infoPg.history.reverse.map infoPgArchiveId).foldlM (fun _ archiveId =>
          removeExpiredArchiveId info (globalBackupRetentionList info option.retentionArchiveType)
            (option.retentionArchive.getD 0) infoArchive.infoPg
            (storageList (u.storage i) [storageRepoArchive] archiveDirDbVersion) i archiveId) ⟨⟩) u := by
    rw [removeExpiredArchive, exec_bind_of_ok (exec_repoOptionIdx i u), own]
    have loads : exec (orThrow (infoArchiveLoadFile (u.storage i))) u = (.ok infoArchive, u) := by
      rw [load]
      rfl
    have agrees : exec (orThrow (historyMatch infoArchive.infoPg info.infoPg)) u =
        (.ok ⟨⟩, u) := by
      rw [agree]
      rfl
    dsimp only
    rw [if_neg (Nat.ne_of_gt scanned.set), if_pos enough, removeArchives,
      exec_bind_of_ok (exec_storageRepoIdx i u), exec_bind_of_ok loads, exec_bind_of_ok agrees]
  have onDisk (id : Str) : id ∈ storageList (v.storage i) [storageRepoArchive] archiveDirDbVersion ↔
      id ∈ storageList (S i) [storageRepoArchive] archiveDirDbVersion := by
    rw [mem_storageList, mem_storageList, List.singleton_append,
      mirror.same (not_mem_rewritten_archive _) (not_backupScope_archive _)]
  obtain ⟨id, retention', walPath, rest, unlogged, gone⟩ :=
    removeExpiredArchiveId_foldlM_unlogged closed named (current infoArchive loaded) onDisk
      (fun id mem => (mem_storageList.mp mem).1) (mirror.mono (fun _ => Or.inl))
      ⟨archiveId, listed, retention, scanned.onDisk, scanned.selected, scanned.online, mixed⟩
  have loop : DryRuns S (fun e => covers i e (archivePath id ++ walPath :: rest) = false)
      ((infoArchive.infoPg.history.reverse.map infoPgArchiveId).foldlM (fun _ archiveId =>
        removeExpiredArchiveId info (globalBackupRetentionList info option.retentionArchiveType)
          (option.retentionArchive.getD 0) infoArchive.infoPg
          (storageList (S i) [storageRepoArchive] archiveDirDbVersion) i archiveId) ⟨⟩) :=
    DryRuns.foldlM _ (fun _ a _ => unlogged.dryRuns (current infoArchive loaded) a) _
  obtain ⟨_, events, dryRun, quiet⟩ := loop w mirror.kept mirror.dry
  refine ⟨id :: walPath :: rest, unlogged.stored, ?_, ?_, ?_⟩
  · rw [run option_eq (by rw [mirror.kept]; exact loaded), congrFun mirror.kept i, dryRun]
  · rw [run option_eq (by rw [mirror.kept]; exact loaded), congrFun mirror.kept i, dryRun]
    rw [covered_append, Bool.or_eq_false_iff]
    constructor
    · exact Bool.eq_false_iff.mpr (fun h => not_backupScope_archive _ (mirror.within _ h))
    · exact List.any_eq_false.mpr (fun e he h => Bool.false_ne_true ((quiet e he).symm.trans h))
  · rw [run (by rw [mirror.option, option_eq]) ((infoArchiveLoadFile_same mirror).trans loaded)]
    exact gone

end Archive

section Backups

theorem exec_removeExpiredBackup_dry (dry : w.config.real = false) {info : InfoBackup}
    {adhoc : Option Str} {candidates : List Str}
    (ok : removeCandidates (w.storage i) info adhoc
      (strLstSort (storageList (w.storage i) [storageRepoBackup] labelAny) .desc) = .ok candidates) :
    exec (removeExpiredBackup info adhoc i) w = (.ok ⟨⟩, { w with
      log := w.log ++ (candidates.filter (fun label =>
        label ∉ infoBackupDataLabelList info (fun _ => true))).map (.removeBackup i) }) := by
  have chosen : exec (orThrow (removeCandidates (w.storage i) info adhoc
      (strLstSort (storageList (w.storage i) [storageRepoBackup] labelAny) .desc))) w =
      (.ok candidates, w) := by
    rw [ok]
    rfl
  rw [removeExpiredBackup, exec_bind_of_ok (exec_storageRepoIdx i w)]
  dsimp only
  rw [exec_bind_of_ok chosen]
  refine exec_foldlM_said _ (fun log label => ?_)
  rw [removeBackupPath]
  split
  · rename_i unlisted
    rw [exec_bind_of_ok (exec_logEvent _ _), exec_storageWrite,
      write_of_dryRun (w := { w with log := log ++ [.removeBackup i label] }) dry,
      if_pos (decide_eq_true unlisted)]
  · rename_i listed
    rw [exec_pure, if_neg (by simpa using listed), List.append_nil]

theorem mem_removeCandidates {storage : Storage} {info : InfoBackup} {label : Str}
    {backupList candidates : List Str}
    (ok : removeCandidates storage info (some label) backupList = .ok candidates)
    (mem : label ∈ backupList) (own : storageExists storage (manifestFileName label) = true) :
    label ∈ candidates := by
  cases backupList with
  | nil => cases mem
  | cons latest rest =>
    obtain ⟨keeps, kept, last⟩ := except_bind_ok (show
      (resumableKeep storage info label latest >>= fun keep =>
        if keep = true then Except.ok ((latest :: rest).drop 1) else .ok (latest :: rest)) =
          .ok candidates from ok)
    cases keeps with
    | false =>
      cases last
      exact mem
    | true =>
      cases last
      refine (List.mem_cons.mp mem).resolve_left ?_
      rintro rfl
      rw [resumableKeep, own] at kept
      cases kept

end Backups

end DryRunParted
