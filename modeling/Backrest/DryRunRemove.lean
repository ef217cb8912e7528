import Backrest.DryRunExpire

/-!
# Removing in a dry run

The real run lists storage from which it has removed before. What it lists for a
decision is still the same as in the dry run, because the paths removed so far
lie elsewhere: the manifests of expired backups, the paths of backups, and the
archive.
-/

namespace DryRunRemove

open Text LexOrder BackupCommon BackupManifest BackupInfo FileTree Effects Repository Expire
open ExpireArchive ExpireCommand RangeScan WalScan DryRun DryRunExpire

variable {S : Nat → Storage} {R : List Nat} {i : Nat}

section Backups

/-- The paths of backups. -/
def backupScope (p : List Str) : Prop :=
  manifestScope p ∨ ∃ label rest, labelAny label = true ∧ p = storageRepoBackup :: label :: rest

theorem infoBackupSaveFile_mirrored (info : InfoBackup) :
    Mirrored S R i manifestScope manifestScope (fun _ => True)
      (storageWrite i (infoBackupSaveFile info)) (storageWrite i (infoBackupSaveFile info)) := by
  intro w v mirror
  refine ⟨rfl, ?_, fun _ _ => trivial⟩
  rw [exec_storageWrite, exec_storageWrite, write_of_dryRun mirror.dry]
  have saved : ∀ p, p ∉ rewritten → ((v.write i (infoBackupSaveFile info)).storage i).node p =
      (v.storage i).node p := by
    intro p rare
    rw [write_storage_self, if_pos mirror.real, infoBackupSaveFile, node_put, node_put,
      if_neg (fun same => rare (by simp [rewritten, same])),
      if_neg (fun same => rare (by simp [rewritten, same]))]
  have after : Mirror S R i manifestScope { w with log := w.log ++ [] } _ :=
    mirror.quiet (only_write v (infoBackupSaveFile info)) saved (by simp)
  rwa [List.append_nil] at after

variable {label : Str} {w v : World}

theorem not_mem_rewritten_of_labelAny (h : labelAny label = true) (rest : List Str) :
    storageRepoBackup :: label :: rest ∉ rewritten := by
  intro mem
  simp only [rewritten, infoBackupFile, infoBackupFileCopy, List.mem_cons, List.cons.injEq,
    true_and, List.not_mem_nil, or_false] at mem
  rcases mem with ⟨rfl, -⟩ | ⟨rfl, -⟩ | ⟨rfl, -⟩ <;> revert h <;> decide

theorem not_manifestScope_of_length {p : List Str} (h : p.length ≠ 3) : ¬ manifestScope p := by
  rintro ⟨label, rfl | rfl⟩
  · exact h rfl
  · exact h rfl

theorem backupList_same (mirror : Mirror S R i manifestScope w v) :
    strLstSort (storageList (v.storage i) [storageRepoBackup] labelAny) .desc =
      strLstSort (storageList (S i) [storageRepoBackup] labelAny) .desc := by
  refine strLstSort_storageList_congr .desc (fun label matched => ?_)
  rw [List.singleton_append, mirror.same (not_mem_rewritten_of_labelAny matched [])
    (not_manifestScope_of_length (by simp))]

theorem archive_ne_backup : storageRepoArchive ≠ storageRepoBackup := by decide

theorem ne_history_of_labelAny (h : labelAny label = true) :
    backupPathHistory ≠ label := by
  rintro rfl
  revert h
  decide

theorem covers_copy (h : labelAny label = true) (e : LogEvent) :
    covers i e (manifestCopyFileName label) = covers i e (manifestFileName label) := by
  have history := ne_history_of_labelAny h
  cases e <;> simp [covers, manifestFileName, manifestCopyFileName, backupPath, archivePath,
    historyPath, coversRange, archive_ne_backup, archive_ne_backup.symm, history]

theorem covered_manifest (mirror : Mirror S R i manifestScope w v) (h : labelAny label = true)
    (gone : covered i w.log (manifestFileName label) = true) :
    storageExists (S i) (manifestFileName label) = true := by
  obtain ⟨e, mem, covers⟩ := List.any_eq_true.mp gone
  have history := ne_history_of_labelAny h
  have named := mirror.named e mem
  cases e with
  | expire kind repoIdx labels =>
    simp only [DryRun.covers, Bool.and_eq_true, decide_eq_true_eq, List.any_eq_true,
      Bool.or_eq_true] at covers
    obtain ⟨here, l, hl, same⟩ := covers
    subst here
    rcases same with same | same
    · rw [same]
      exact named l hl
    · simp [manifestFileName, manifestCopyFileName] at same
  | removeBackup repoIdx other =>
    -- The path of the backup itself would be covered, which is not in the scope.
    simp only [DryRun.covers, Bool.and_eq_true, decide_eq_true_eq] at covers
    have path : covered i w.log (backupPath other) = true :=
      List.any_eq_true.mpr ⟨_, mem, by simp [DryRun.covers, covers.1]⟩
    exact absurd (mirror.within _ path) (not_manifestScope_of_length (by simp [backupPath]))
  | _ => simp [DryRun.covers, manifestFileName, archivePath, historyPath, coversRange,
      archive_ne_backup, archive_ne_backup.symm, history] at covers

/-- Both runs agree on whether the newest backup on disk is kept as resumable. -/
theorem resumableKeep_same (mirror : Mirror S R i manifestScope w v) (info : InfoBackup)
    (adhocLabel : Str) {latest : Str} (h : labelAny latest = true) :
    resumableKeep (v.storage i) info adhocLabel latest =
      resumableKeep (S i) info adhocLabel latest := by
  have main := mirror.node i (manifestFileName latest) (not_mem_rewritten_of_labelAny h _)
  have copy := mirror.node i (manifestCopyFileName latest) (not_mem_rewritten_of_labelAny h _)
  have together : covered i w.log (manifestCopyFileName latest) =
      covered i w.log (manifestFileName latest) := by
    simp only [covered, covers_copy h]
  rw [together] at copy
  cases gone : covered i w.log (manifestFileName latest) with
  | true =>
    -- Expired by this run: without manifests now, and not resumable before.
    have there := covered_manifest mirror h gone
    rw [gone, if_pos rfl] at main copy
    have absent : storageExists (v.storage i) (manifestCopyFileName latest) = false := by
      simp [storageExists, Tree.read, copy]
    rw [resumableKeep, resumableKeep, there, absent]
    simp
  | false =>
    rw [gone] at main copy
    have sameMain : (v.storage i).read (manifestFileName latest) =
        (S i).read (manifestFileName latest) := read_congr main
    have sameCopy : (v.storage i).read (manifestCopyFileName latest) =
        (S i).read (manifestCopyFileName latest) := read_congr copy
    have load : manifestLoadFile (v.storage i) latest = manifestLoadFile (S i) latest := by
      simp only [manifestLoadFile, loadFile, loadTry, sameMain, sameCopy]
    rw [resumableKeep, resumableKeep, load, storageExists, storageExists, storageExists,
      storageExists, sameMain, sameCopy]

theorem removeBackupPath_mirrored (current : List Str) (h : labelAny label = true)
    (stored : ((S i).node (backupPath label)).isSome) :
    Mirrored S R i backupScope backupScope (fun _ => True) (removeBackupPath i current label)
      (removeBackupPath i current label) := by
  rw [removeBackupPath]
  split
  · refine mirrored_remove (fun t p => ?_) (fun j hj p => ?_) stored (fun p hp => ?_)
    · simp [covers, node_removeTree]
    · simp [covers, Ne.symm hj]
    · simp only [covers, decide_true, Bool.true_and, decide_eq_true_eq] at hp
      obtain ⟨rest, rfl⟩ := hp
      exact Or.inr ⟨label, rest, h, rfl⟩
  · exact mirrored_pure trivial

/-- Both runs go through the same backups on disk. -/
theorem removeCandidates_same (mirror : Mirror S R i manifestScope w v) (info : InfoBackup)
    (adhoc : Option Str) {backupList : List Str}
    (labels : ∀ label ∈ backupList, labelAny label = true) :
    removeCandidates (v.storage i) info adhoc backupList =
      removeCandidates (S i) info adhoc backupList := by
  cases adhoc with
  | none => rfl
  | some label =>
    cases backupList with
    | nil => rfl
    | cons latest rest =>
      change (do if ← resumableKeep (v.storage i) info label latest then _ else _) =
        (do if ← resumableKeep (S i) info label latest then _ else _)
      rw [resumableKeep_same mirror info label (labels latest List.mem_cons_self)]

theorem removeCandidates_subset {storage : Storage} {info : InfoBackup} {adhoc : Option Str}
    {backupList candidates : List Str}
    (h : removeCandidates storage info adhoc backupList = .ok candidates) :
    ∀ label ∈ candidates, label ∈ backupList := by
  cases adhoc with
  | none =>
    cases h
    exact fun _ mem => mem
  | some label =>
    obtain ⟨latest, -, keep⟩ := except_bind_ok h
    obtain ⟨keeps, -, last⟩ := except_bind_ok keep
    cases keeps with
    | true =>
      cases last
      exact fun _ mem => List.mem_of_mem_drop mem
    | false =>
      cases last
      exact fun _ mem => mem

theorem removeExpiredBackup_mirrored (info : InfoBackup) (adhoc : Option Str) :
    Mirrored S R i manifestScope backupScope (fun _ => True) (removeExpiredBackup info adhoc i)
      (removeExpiredBackup info adhoc i) := by
  intro w v mirror
  have onDisk : ∀ label ∈ strLstSort (storageList (S i) [storageRepoBackup] labelAny) .desc,
      ((S i).node (backupPath label)).isSome ∧ labelAny label = true :=
    fun label mem => mem_storageList.mp (mem_strLstSort.mp mem)
  rw [removeExpiredBackup, exec_bind_of_ok (exec_storageRepoIdx i w),
    exec_bind_of_ok (exec_storageRepoIdx i v), mirror.kept, backupList_same mirror]
  dsimp only
  rw [removeCandidates_same mirror info adhoc (fun label mem => (onDisk label mem).2)]
  refine mirrored_bind (mirrored_orThrow (fun _ ok => removeCandidates_subset ok))
    (fun candidates subset => ?_) (fun _ h => h) w v (mirror.mono (fun _ => Or.inl))
  refine mirrored_foldlM candidates (fun _ _ label mem => ?_) trivial
  obtain ⟨stored, matched⟩ := onDisk label (subset label mem)
  exact removeBackupPath_mirrored _ matched stored

end Backups

section Archive

def archiveScope (p : List Str) : Prop :=
  backupScope p ∨ ∃ rest, p = storageRepoArchive :: rest

/-- Every entry has its parents. -/
def Closed (storage : Storage) : Prop :=
  ∀ p q, q <+: p → q ≠ [] → (storage.node p).isSome → (storage.node q).isSome

theorem not_mem_rewritten_archive (rest : List Str) : storageRepoArchive :: rest ∉ rewritten := by
  intro mem
  simp [rewritten, infoBackupFile, infoBackupFileCopy, archive_ne_backup] at mem

theorem not_mem_rewritten_archivePath (archiveId : Str) (rest : List Str) :
    archivePath archiveId ++ rest ∉ rewritten :=
  not_mem_rewritten_archive _

theorem not_backupScope_archive (rest : List Str) : ¬ backupScope (storageRepoArchive :: rest) := by
  rintro (⟨label, same | same⟩ | ⟨label, more, -, same⟩)
  · exact archive_ne_backup (List.cons.inj same).1
  · exact archive_ne_backup (List.cons.inj same).1
  · exact archive_ne_backup (List.cons.inj same).1

variable {archiveId : Str} {w v : World} {info : InfoBackup}

theorem covers_below {walPath : Str} (dir : walSegmentDir walPath = true) {e : LogEvent}
    (h : covers i e (archivePath archiveId ++ [walPath]) = true) (rest : List Str) :
    covers i e (archivePath archiveId ++ walPath :: rest) = true := by
  cases e with
  | removeHistoryFile repoIdx id file =>
    simp only [covers, archivePath, List.cons_append, List.nil_append, Bool.and_eq_true,
      decide_eq_true_eq, List.cons.injEq] at h
    obtain ⟨⟨-, history⟩, -, -, rfl, -⟩ := h
    rw [not_history_of_walSegmentDir dir] at history
    cases history
  | removeArchive repoIdx id start stop =>
    simp only [covers, coversRange, archivePath, List.cons_append, List.nil_append,
      Bool.and_eq_true, decide_eq_true_eq, Bool.or_false] at h
    obtain ⟨rfl, ⟨⟨-, rfl⟩, -⟩, rfl⟩ := h
    simp [covers, coversRange, archivePath, dir]
  | removeArchivePath repoIdx id =>
    simp only [covers, archivePath, List.cons_append, List.nil_append, Bool.and_eq_true,
      decide_eq_true_eq, List.cons_prefix_cons] at h ⊢
    simp [h]
  | _ =>
    simp [covers, archivePath, manifestFileName, manifestCopyFileName, backupPath, historyPath,
      archive_ne_backup, archive_ne_backup.symm] at h

theorem coversRange_archive {start stop : Str} {p : List Str}
    (h : coversRange archiveId start stop p = true) :
    ∃ walPath rest, p = archivePath archiveId ++ walPath :: rest ∧ walSegmentDir walPath = true := by
  rcases p with _ | ⟨root, _ | ⟨id, _ | ⟨dir, rest⟩⟩⟩
  · cases h
  · cases h
  · cases h
  · simp only [coversRange, Bool.and_eq_true, decide_eq_true_eq] at h
    obtain ⟨⟨⟨rfl, rfl⟩, segment⟩, -⟩ := h
    exact ⟨dir, rest, rfl, segment⟩

/-- What the real run still has below a WAL directory is below a directory that it lists. -/
theorem walPathList_listed (mirror : Mirror S R i archiveScope w v) (closed : Closed (S i))
    {walPath : Str} {rest : List Str} (dir : walSegmentDir walPath = true)
    (entry : (v.storage i).node (archivePath archiveId ++ walPath :: rest) ≠ none) :
    walPath ∈ walPathList (S i) archiveId ∧ walPath ∈ walPathList (v.storage i) archiveId := by
  obtain ⟨uncovered, stored⟩ := mirror.uncovered (not_mem_rewritten_archivePath _ _) entry
  have parent : ((S i).node (archivePath archiveId ++ [walPath])).isSome := by
    refine closed (archivePath archiveId ++ walPath :: rest) _ ⟨rest, by simp⟩ (by simp) ?_
    rw [stored]
    exact Option.isSome_iff_ne_none.mpr entry
  refine ⟨mem_walPathList.mpr ⟨parent, dir⟩, mem_walPathList.mpr ⟨?_, dir⟩⟩
  -- Had the directory been removed, so would have been the path.
  have same := mirror.node i (archivePath archiveId ++ [walPath]) (not_mem_rewritten_archive _)
  cases gone : covered i w.log (archivePath archiveId ++ [walPath]) with
  | false =>
    rw [gone] at same
    rw [same]
    exact parent
  | true =>
    obtain ⟨e, mem, covers⟩ := List.any_eq_true.mp gone
    have below : covered i w.log (archivePath archiveId ++ walPath :: rest) = true :=
      List.any_eq_true.mpr ⟨e, mem, covers_below dir covers rest⟩
    rw [uncovered] at below
    cases below

def rangeEvents (storage : Storage) (i : Nat) (archiveId : Str) (ranges : List ArchiveRange)
    (expireMax : Str) : List LogEvent :=
  (RangeScan.ranges none (walTokens storage archiveId ranges expireMax)).map (rangeEvent i archiveId)

/-- A logged range starts with a path that is stored. -/
theorem rangeEvent_names {storage : Storage} (named : SegmentsNamed storage) {expireMax : Str}
    {ranges : List ArchiveRange} {r : Str × Str}
    (hr : r ∈ RangeScan.ranges none (walTokens storage archiveId ranges expireMax)) :
    ∃ p, coversRange archiveId r.1 r.2 p = true ∧ (storage.node p).isSome := by
  rcases start_of_mem_ranges hr with ⟨b, hb⟩ | ⟨t, ht, -, key⟩
  · cases hb
  · obtain ⟨dir, hdir, ht⟩ := List.mem_flatMap.mp ht
    obtain ⟨stored, segment⟩ := mem_walPathList.mp hdir
    rcases mem_pathTokens ht with ⟨-, rfl⟩ | ⟨-, -, file, mem, rfl⟩
    · refine ⟨archivePath archiveId ++ [dir], ?_, stored⟩
      change dir = r.1 at key
      rw [← key]
      simp [coversRange, archivePath, segment]
    · obtain ⟨fileStored, fileSegment⟩ := mem_walFileList.mp mem
      refine ⟨archivePath archiveId ++ [dir, file], ?_, fileStored⟩
      have le := start_le_stop (walTokens_sorted named) none (by simp) hr
      rw [fileToken_key] at key
      simp [coversRange, archivePath, segment, fileSegment, key, le]

/-- The ranges that the dry run logs are what the real run removes. -/
theorem mirror_scan {v' : World} (mirror : Mirror S R i archiveScope w v) (closed : Closed (S i))
    (named : SegmentsNamed (S i)) {expireMax : Str} {ranges : List ArchiveRange}
    (separate : Separate false (walTokens (S i) archiveId ranges expireMax))
    (removes : Removes i (fun p => (walPathList (v.storage i) archiveId).any
      (fun dir => expiredPath archiveId ranges expireMax dir p)) v v') :
    Mirror S R i archiveScope
      { w with log := w.log ++ rangeEvents (S i) i archiveId ranges expireMax } v' := by
  have covered_iff (p : List Str) :
      covered i (rangeEvents (S i) i archiveId ranges expireMax) p = true ↔ ∃ r ∈ RangeScan.ranges none (walTokens (S i) archiveId ranges expireMax),
        coversRange archiveId r.1 r.2 p = true := by
    simp [covered, covers, rangeEvents, rangeEvent, List.any_map]
  refine mirror.advance _ removes.only (fun p _ => removes.node p) ?_ ?_ ?_ (fun _ h => h) ?_
  · intro p _ entry
    rw [Bool.eq_iff_iff, covered_iff, List.any_eq_true]
    constructor
    · rintro ⟨dir, mem, expired⟩
      obtain ⟨rest, rfl, below⟩ := expiredPath_iff.mp expired
      have segment := (mem_walPathList.mp mem).2
      obtain ⟨listed, -⟩ := walPathList_listed mirror closed segment entry
      obtain ⟨-, stored⟩ := mirror.uncovered (not_mem_rewritten_archivePath _ _) entry
      refine (coversRange_iff_expired named separate listed ?_).mpr below
      rw [stored]
      exact Option.isSome_iff_ne_none.mpr entry
    · rintro ⟨r, hr, covers⟩
      obtain ⟨dir, rest, rfl, segment⟩ := coversRange_archive covers
      obtain ⟨listed, here⟩ := walPathList_listed mirror closed segment entry
      obtain ⟨-, stored⟩ := mirror.uncovered (not_mem_rewritten_archivePath _ _) entry
      refine ⟨dir, here, expiredPath_iff.mpr ⟨rest, rfl, ?_⟩⟩
      refine (coversRange_iff_expired named separate listed ?_).mp ⟨r, hr, covers⟩
      rw [stored]
      exact Option.isSome_iff_ne_none.mpr entry
  · intro e he j hj p
    obtain ⟨r, -, rfl⟩ := List.mem_map.mp he
    simp [covers, rangeEvent, Ne.symm hj]
  · intro e he
    obtain ⟨r, hr, rfl⟩ := List.mem_map.mp he
    exact rangeEvent_names named hr
  · intro e he p h
    obtain ⟨r, -, rfl⟩ := List.mem_map.mp he
    simp only [covers, rangeEvent, Bool.and_eq_true] at h
    obtain ⟨dir, rest, rfl, -⟩ := coversRange_archive h.2
    exact Or.inr ⟨_, rfl⟩

/-- The history files that are logged as removed. -/
def historyFileEvents (storage : Storage) (i : Nat) (archiveId timeline : Str) : List LogEvent :=
  ((strLstSort (storageList storage (archivePath archiveId) walTimelineHistory) .asc).filter
    (fun file => strSubN file 0 8 < timeline)).map (.removeHistoryFile i archiveId)

theorem exec_removeHistoryFiles_dry (dry : w.config.real = false) (archiveId timeline : Str) :
    exec (removeHistoryFiles i archiveId timeline) w =
      (.ok ⟨⟩, { w with log := w.log ++ historyFileEvents (w.storage i) i archiveId timeline }) := by
  rw [removeHistoryFiles, exec_bind_of_ok (exec_storageRepoIdx i w)]
  refine exec_foldlM_said _ (fun log file => ?_)
  rw [removeHistoryFile]
  split
  · rename_i older
    rw [exec_bind_of_ok (exec_storageWrite _ _ _), write_of_dryRun (w := { w with log := log }) dry,
      if_pos (decide_eq_true older)]
    rfl
  · rename_i kept
    rw [exec_pure, if_neg (by simpa using kept), List.append_nil]

theorem removeHistoryFiles_mirrored (archiveId timeline : Str) :
    Mirrored S R i archiveScope archiveScope (fun _ => True)
      (removeHistoryFiles i archiveId timeline) (removeHistoryFiles i archiveId timeline) := by
  intro w v mirror
  obtain ⟨_, v', run, gone⟩ := @removeHistoryFiles_removes v i archiveId timeline
  rw [exec_removeHistoryFiles_dry mirror.dry, congrFun mirror.kept i, run]
  refine ⟨rfl, ?_, fun _ _ => trivial⟩
  refine mirror.advance _ gone.only (fun p _ => gone.node p) ?_ ?_ ?_ (fun _ h => h) ?_
  · intro p rare entry
    obtain ⟨-, stored⟩ := mirror.uncovered rare entry
    rw [mirror.real, Bool.true_and, Bool.eq_iff_iff, olderHistory_iff, covered, List.any_eq_true]
    constructor
    · rintro ⟨file, rfl, history, older⟩
      refine ⟨_, List.mem_map_of_mem (List.mem_filter.mpr ⟨mem_strLstSort.mpr
        (mem_storageList.mpr ⟨?_, history⟩), decide_eq_true older⟩), by simp [covers, history]⟩
      rw [stored]
      exact Option.isSome_iff_ne_none.mpr entry
    · rintro ⟨e, he, h⟩
      obtain ⟨file, hf, rfl⟩ := List.mem_map.mp he
      simp only [covers, decide_true, Bool.true_and, Bool.and_eq_true, decide_eq_true_eq] at h
      exact ⟨file, h.2, h.1, of_decide_eq_true (List.mem_filter.mp hf).2⟩
  · intro e he j hj p
    obtain ⟨file, -, rfl⟩ := List.mem_map.mp he
    simp [covers, Ne.symm hj]
  · intro e he
    obtain ⟨file, hf, rfl⟩ := List.mem_map.mp he
    exact (mem_storageList.mp (mem_strLstSort.mp (List.mem_of_mem_filter hf))).1
  · intro e he p h
    obtain ⟨file, -, rfl⟩ := List.mem_map.mp he
    simp only [covers, Bool.and_eq_true, decide_eq_true_eq] at h
    rw [h.2]
    exact Or.inr ⟨_, rfl⟩

theorem exec_logRetention (S : Nat → Storage) (archiveId : Str) (retention : InfoBackupData)
    (backups : List InfoBackupData) (w : World) :
    ∃ events, (∀ e ∈ events, Silent S e) ∧ exec (logRetention i archiveId retention backups) w =
      (.ok ⟨⟩, { w with log := w.log ++ events }) := by
  rw [logRetention]
  induction backups generalizing w with
  | nil => exact ⟨[], by simp, by simp⟩
  | cons data rest ih =>
    rw [List.foldlM_cons]
    cases archiveRange retention data with
    | none =>
      obtain ⟨events, silent, run⟩ := ih w
      exact ⟨events, silent, by rw [exec_bind_of_ok (exec_pure _ _), run]⟩
    | some range =>
      obtain ⟨events, silent, run⟩ := ih { w with log := w.log ++
        [.archiveRetention i archiveId data.backupLabel range.start range.stop] }
      refine ⟨_ :: events, ?_, by rw [exec_bind_of_ok (exec_logEvent _ _), run, List.append_assoc,
        List.singleton_append]⟩
      intro e he
      rcases List.mem_cons.mp he with rfl | he
      · exact ⟨fun _ _ => rfl, trivial⟩
      · exact silent e he

/-- After the scan the pending range is logged, or that there was nothing to remove. -/
def scanEnd (i : Nat) (archiveId : Str) (tail : Command PUnit) (archiveExpire : ArchiveExpired) :
    Command PUnit :=
  if archiveExpire.total = 0 then do
    logEvent (.noArchiveToRemove i archiveId)
    tail
  else do
    let _ ← logExpire i archiveId archiveExpire
    tail

theorem exec_scanEnd_dry (S : Nat → Storage) {archiveExpire : ArchiveExpired}
    (counted : archiveExpire.start.isSome → 0 < archiveExpire.total) (tail : Command PUnit)
    (w : World) :
    ∃ extra, (∀ e ∈ extra, Silent S e) ∧
      exec (scanEnd i archiveId tail archiveExpire) w = exec tail { w with log := w.log ++
        ((pendingRange archiveExpire).toList.map (rangeEvent i archiveId) ++ extra) } := by
  rw [scanEnd]
  split
  · rename_i none
    have empty : archiveExpire.start = .none := by
      by_contra some
      have := counted (Option.isSome_iff_ne_none.mpr some)
      omega
    refine ⟨[.noArchiveToRemove i archiveId], ?_, ?_⟩
    · intro e he
      rw [List.mem_singleton.mp he]
      exact ⟨fun _ _ => rfl, trivial⟩
    · rw [exec_bind_of_ok (exec_logEvent _ _), pendingRange, empty]
      rfl
  · refine ⟨[], by simp, ?_⟩
    rw [List.append_nil]
    cases hs : archiveExpire.start with
    | none =>
      rw [logExpire, hs, exec_bind_of_ok (exec_pure _ _), pendingRange, hs]
      simp
    | some start =>
      have run : exec (logExpire i archiveId archiveExpire) w =
          (.ok { archiveExpire with start := none },
            { w with log := w.log ++ [.removeArchive i archiveId start
              (archiveExpire.stop.getD [])] }) := by
        rw [logExpire, hs]
        rfl
      rw [exec_bind_of_ok run, pendingRange, hs]
      rfl

theorem exec_scanEnd (i : Nat) (archiveId : Str) (tail : Command PUnit)
    (archiveExpire : ArchiveExpired) (v : World) :
    ∃ log, exec (scanEnd i archiveId tail archiveExpire) v = exec tail { v with log := log } := by
  rw [scanEnd]
  split
  · exact ⟨_, rfl⟩
  · rw [logExpire]
    cases archiveExpire.start with
    | none => exact ⟨v.log, rfl⟩
    | some start => exact ⟨_, rfl⟩

theorem exec_removeWal_dry (S : Nat → Storage) (dry : w.config.real = false) (archiveId : Str)
    (backups : List InfoBackupData) (retention : InfoBackupData) (start : Str) :
    ∃ before extra, (∀ e ∈ before, Silent S e) ∧ (∀ e ∈ extra, Silent S e) ∧
      exec (removeWal i archiveId backups retention start) w =
        exec (removeHistoryFiles i archiveId (strSubN start 0 8)) { w with
          log := w.log ++ before ++ rangeEvents (w.storage i) i archiveId
            (archiveRangeList backups retention) (archiveExpireMax backups retention) ++ extra } := by
  obtain ⟨before, quiet, retain⟩ := exec_logRetention (i := i) S archiveId retention backups w
  obtain ⟨after, logged, scan⟩ := removeWalPaths_scans (w := { w with log := w.log ++ before }) dry i
    archiveId (archiveRangeList backups retention) (archiveExpireMax backups retention)
  obtain ⟨extra, silent, finish⟩ := exec_scanEnd_dry S (scan.counted (by simp))
    (removeHistoryFiles i archiveId (strSubN start 0 8))
    { w with log := w.log ++ before ++ logged.map (rangeEvent i archiveId) }
  refine ⟨before, extra, quiet, silent, ?_⟩
  -- All that is logged here are the ranges of the scan.
  have events : rangeEvents (w.storage i) i archiveId (archiveRangeList backups retention)
      (archiveExpireMax backups retention) =
      logged.map (rangeEvent i archiveId) ++
        (pendingRange after).toList.map (rangeEvent i archiveId) := by
    have all := scan.ranges []
    rw [List.append_nil] at all
    rw [rangeEvents, ← List.map_append]
    exact congrArg _ all
  have rest := exec_bind_of_ok
    (f := scanEnd i archiveId (removeHistoryFiles i archiveId (strSubN start 0 8))) scan.run
  rw [finish] at rest
  rw [removeWal, exec_bind_of_ok retain, events]
  simp only [List.append_assoc] at rest ⊢
  exact rest

theorem exec_removeWal_real (real : v.config.real = true) (archiveId : Str)
    (backups : List InfoBackupData) (retention : InfoBackupData) (start : Str) :
    ∃ v', Removes i (fun p => (walPathList (v.storage i) archiveId).any (fun dir => expiredPath
        archiveId (archiveRangeList backups retention) (archiveExpireMax backups retention) dir p))
        v v' ∧
      exec (removeWal i archiveId backups retention start) v =
        exec (removeHistoryFiles i archiveId (strSubN start 0 8)) v' := by
  obtain ⟨before, -, retain⟩ :=
    exec_logRetention (i := i) v.storage archiveId retention backups v
  obtain ⟨after, v', run, removes⟩ := @removeWalPaths_removes { v with log := v.log ++ before } i
    archiveId (archiveRangeList backups retention) (archiveExpireMax backups retention)
    (walPathList (v.storage i) archiveId)
  simp only [real, Bool.true_and] at removes
  obtain ⟨log, finish⟩ := exec_scanEnd i archiveId
    (removeHistoryFiles i archiveId (strSubN start 0 8)) after v'
  refine ⟨{ v' with log := log }, ⟨((only_log v _).trans removes.only).trans (only_log v' log),
    removes.node⟩, ?_⟩
  have rest := exec_bind_of_ok
    (f := scanEnd i archiveId (removeHistoryFiles i archiveId (strSubN start 0 8))) run
  rw [removeWal, exec_bind_of_ok retain]
  exact rest.trans finish

theorem removeWal_mirrored (closed : Closed (S i)) (named : SegmentsNamed (S i))
    {backups : List InfoBackupData} {retention : InfoBackupData}
    (separate : Separate false (walTokens (S i) archiveId (archiveRangeList backups retention)
      (archiveExpireMax backups retention))) (start : Str) :
    Mirrored S R i archiveScope archiveScope (fun _ => True)
      (removeWal i archiveId backups retention start)
      (removeWal i archiveId backups retention start) := by
  intro w v mirror
  obtain ⟨before, extra, quiet, silent, dryRun⟩ :=
    exec_removeWal_dry S mirror.dry archiveId backups retention start
  obtain ⟨v', removes, run⟩ := exec_removeWal_real mirror.real archiveId backups retention start
  rw [dryRun, run, congrFun mirror.kept i]
  have told := mirror.quiet (only_log v v.log) (fun _ _ => rfl) quiet
  have scanned := mirror_scan told closed named separate removes
  exact removeHistoryFiles_mirrored archiveId (strSubN start 0 8) _ _
    (scanned.quiet (only_log v' v'.log) (fun _ _ => rfl) silent)

structure Scanned (storage : Storage) (info : InfoBackup) (option : RepoOption) (archiveId : Str)
    (retention : InfoBackupData) : Prop where
  set : 0 < option.retentionArchive.getD 0
  enough : option.retentionArchive.getD 0 ≤
    (globalBackupRetentionList info option.retentionArchiveType).length
  listed : ∃ infoArchive, infoArchiveLoadFile storage = .ok infoArchive ∧
    historyMatch infoArchive.infoPg info.infoPg = .ok ⟨⟩ ∧
    archiveId ∈ infoArchive.infoPg.history.map infoPgArchiveId
  onDisk : archiveId ∈ storageList storage [storageRepoArchive] archiveDirDbVersion
  selected : archiveRetentionSelect info
    (globalBackupRetentionList info option.retentionArchiveType)
    (option.retentionArchive.getD 0) (archivePgId archiveId) = some retention
  online : retention.backupArchiveStart.isSome

def scanTokens (storage : Storage) (info : InfoBackup) (archiveId : Str)
    (retention : InfoBackupData) : List (Token Str) :=
  walTokens storage archiveId
    (archiveRangeList (archiveIdBackupList info (archivePgId archiveId)) retention)
    (archiveExpireMax (archiveIdBackupList info (archivePgId archiveId)) retention)

/-- In no archive id that is scanned, a WAL directory is removed whole while a range is pending. -/
def WalSeparate (storage : Storage) (info : InfoBackup) (option : RepoOption) : Prop :=
  ∀ archiveId retention, Scanned storage info option archiveId retention →
    Separate false (scanTokens storage info archiveId retention)

theorem removeExpiredArchiveId_mirrored (closed : Closed (S i)) (named : SegmentsNamed (S i))
    {global : List Str} {archiveRetention : Nat} {disk disk' : List Str}
    (separate : ∀ retention, archiveId ∈ disk →
      archiveRetentionSelect info global archiveRetention (archivePgId archiveId) = some retention →
      retention.backupArchiveStart.isSome → Separate false (scanTokens (S i) info archiveId retention))
    (infoArchivePg : InfoPg) (same : archiveId ∈ disk' ↔ archiveId ∈ disk)
    (stored : archiveId ∈ disk → ((S i).node (archivePath archiveId)).isSome) :
    Mirrored S R i archiveScope archiveScope (fun _ => True)
      (removeExpiredArchiveId info global archiveRetention infoArchivePg disk i archiveId)
      (removeExpiredArchiveId info global archiveRetention infoArchivePg disk' i archiveId) := by
  rw [removeExpiredArchiveId, removeExpiredArchiveId]
  simp only [same]
  split
  · rename_i onDisk
    split
    · refine mirrored_bind (mirrored_orThrow (fun _ _ => trivial)) (fun currentPg _ => ?_)
        (fun _ h => h)
      split
      · refine mirrored_remove (fun t p => ?_) (fun j hj p => ?_) (stored onDisk) (fun p hp => ?_)
        · simp [covers, node_removeTree]
        · simp [covers, Ne.symm hj]
        · simp only [covers, decide_true, Bool.true_and, decide_eq_true_eq] at hp
          obtain ⟨rest, rfl⟩ := hp
          exact Or.inr ⟨_, rfl⟩
      · exact mirrored_pure trivial
    · split
      · exact mirrored_pure trivial
      · rename_i retention selected
        split
        · exact mirrored_pure trivial
        · rename_i start hstart
          exact removeWal_mirrored closed named
            (separate retention onDisk selected (by rw [hstart]; rfl)) start
  · exact mirrored_pure trivial

theorem infoArchiveLoadFile_same (mirror : Mirror S R i backupScope w v) :
    infoArchiveLoadFile (v.storage i) = infoArchiveLoadFile (S i) := by
  have main : (v.storage i).read infoArchiveFile = (S i).read infoArchiveFile :=
    read_congr (mirror.same (not_mem_rewritten_archive _) (not_backupScope_archive _))
  have copy : (v.storage i).read infoArchiveFileCopy = (S i).read infoArchiveFileCopy :=
    read_congr (mirror.same (not_mem_rewritten_archive _) (not_backupScope_archive _))
  simp only [infoArchiveLoadFile, loadFile, loadTry, main, copy]

theorem removeArchives_mirrored (closed : Closed (S i)) (named : SegmentsNamed (S i))
    {option : RepoOption} (separate : WalSeparate (S i) info option)
    (set : 0 < option.retentionArchive.getD 0)
    (enough : option.retentionArchive.getD 0 ≤
      (globalBackupRetentionList info option.retentionArchiveType).length) :
    Mirrored S R i backupScope archiveScope (fun _ => True)
      (removeArchives info (globalBackupRetentionList info option.retentionArchiveType)
        (option.retentionArchive.getD 0) i)
      (removeArchives info (globalBackupRetentionList info option.retentionArchiveType)
        (option.retentionArchive.getD 0) i) := by
  intro w v mirror
  rw [removeArchives, exec_bind_of_ok (exec_storageRepoIdx i w),
    exec_bind_of_ok (exec_storageRepoIdx i v), mirror.kept, infoArchiveLoadFile_same mirror]
  refine mirrored_bind (mirrored_orThrow (fun _ ok => ok)) (fun infoArchive loaded => ?_)
    (fun _ h => h) w v (mirror.mono (fun _ => Or.inl))
  refine mirrored_bind (mirrored_orThrow (fun _ ok => ok)) (fun _ agree => ?_) (fun _ h => h)
  refine mirrored_foldlM _ (fun _ _ archiveId mem => ?_) trivial
  rw [List.map_reverse, List.mem_reverse] at mem
  refine removeExpiredArchiveId_mirrored closed named (fun retention onDisk selected online =>
      separate archiveId retention
        ⟨set, enough, ⟨infoArchive, loaded, agree, mem⟩, onDisk, selected, online⟩)
    _ ?_ (fun onDisk => (mem_storageList.mp onDisk).1)
  rw [mem_storageList, mem_storageList, List.singleton_append,
    mirror.same (not_mem_rewritten_archive _) (not_backupScope_archive _)]

theorem removeExpiredArchive_mirrored (closed : Closed (S i)) (named : SegmentsNamed (S i))
    (mirror : Mirror S R i backupScope w v) (separate : WalSeparate (S i) info (w.config.repo i))
    (timeBased : Bool) :
    (exec (removeExpiredArchive info timeBased i) w).1 =
        (exec (removeExpiredArchive info timeBased i) v).1 ∧
      Mirror S R i archiveScope (exec (removeExpiredArchive info timeBased i) w).2
        (exec (removeExpiredArchive info timeBased i) v).2 := by
  have wider : ∀ p, backupScope p → archiveScope p := fun _ => Or.inl
  have log (event : LogEvent) (silent : Silent S event) :=
    mirrored_logEvent silent w v (mirror.mono wider)
  rw [removeExpiredArchive, exec_bind_of_ok (exec_repoOptionIdx i w),
    exec_bind_of_ok (exec_repoOptionIdx i v), mirror.option]
  dsimp only
  split
  · split
    · obtain ⟨same, after, -⟩ := log (.archiveRetentionNotMet i) ⟨fun _ _ => rfl, trivial⟩
      exact ⟨same, after⟩
    · obtain ⟨same, after, -⟩ := log (.archiveRetentionNotSet i) ⟨fun _ _ => rfl, trivial⟩
      exact ⟨same, after⟩
  · rename_i set
    split
    · rename_i enough
      rw [Bool.and_eq_true, decide_eq_true_eq] at enough
      obtain ⟨same, after, -⟩ := removeArchives_mirrored closed named separate
        (Nat.pos_of_ne_zero set) enough.2 w v mirror
      exact ⟨same, after⟩
    · exact ⟨rfl, mirror.mono wider⟩

end Archive

end DryRunRemove
