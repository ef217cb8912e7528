import Backrest.Expire

/-!
# Archive retention

`removeExpiredArchive` keeps the WAL that the listed backups need. For each
archive id it selects a backup, keeps everything from the start of that backup
on, and keeps the range of every older backup. Whole directories are compared by
the first 16 characters of a segment name, files by the first 24.
-/

namespace ExpireArchive

open Text LexOrder BackupCommon BackupManifest BackupInfo FileTree Effects Repository Expire

section Names

/-- `WAL_SEGMENT_DIR_REGEXP`. -/
def walSegmentDir (s : Str) : Bool := decide (matchN isWalChar 16 s = some [])

/-- The expression `^[0-F]{24}.*$` for the files of a WAL directory. -/
def walSegmentFile (s : Str) : Bool := (matchN isWalChar 24 s).isSome

/-- `WAL_TIMELINE_HISTORY_REGEXP`. The dot of the expression stands for any character. -/
def walTimelineHistory (s : Str) : Bool :=
  match matchN isWalChar 8 s with
  | some (_ :: rest) => decide (rest = "history".toList)
  | _ => false

def isNumber (s : Str) : Bool := !s.isEmpty && s.all isDigit

/-- `REGEX_ARCHIVE_DIR_DB_VERSION`. -/
def archiveDirDbVersion (s : Str) : Bool :=
  match strLstNewSplit '-' s with
  | [version, id] => (strLstNewSplit '.' version).all isNumber && isNumber id
  | _ => false

end Names

section Selection

def archiveRetentionFilter : BackupType → Str → Bool
  | .full => labelFull
  | .diff => labelFullDiff
  | .incr => labelAny

def globalBackupRetentionList (info : InfoBackup) (type : BackupType) : List Str :=
  strLstSort (infoBackupDataLabelList info (archiveRetentionFilter type)) .desc

/-- Those of them that belong to an archive id, oldest first. -/
def localBackupRetentionList (info : InfoBackup) (global : List Str) (archivePgId : Nat) :
    List Str :=
  global.reverse.flatMap (fun label =>
    (info.backup.filter (fun data =>
      decide (data.backupLabel = label) && decide (data.backupPgId = archivePgId))).map
        (·.backupLabel))

def localBackupArchiveRetentionList (globalArchive localList : List Str) : List Str :=
  let found := globalArchive.reverse.flatMap (fun label => localList.filter (· = label))
  if found.isEmpty then localList.getLast?.toList else found

def archiveRetentionBackup (info : InfoBackup) (selected : Str) : Option InfoBackupData :=
  (info.backup.filter (fun data => data.backupLabel = selected)).getLast?

def archiveRetentionSelect (info : InfoBackup) (global : List Str) (archiveRetention : Nat)
    (pgId : Nat) : Option InfoBackupData :=
  (localBackupArchiveRetentionList (global.take archiveRetention)
    (localBackupRetentionList info global pgId)).head?.bind (archiveRetentionBackup info)

structure ArchiveRange where
  start : Str
  stop : Option Str
  deriving DecidableEq

def archiveRange (retention : InfoBackupData) (data : InfoBackupData) : Option ArchiveRange :=
  if data.backupLabel ≤ retention.backupLabel then
    data.backupArchiveStart.map (fun start =>
      ⟨start, if data.backupLabel ≠ retention.backupLabel then data.backupArchiveStop else none⟩)
  else none

def archiveIdBackupList (info : InfoBackup) (archivePgId : Nat) : List InfoBackupData :=
  info.backup.filter (fun data => data.backupPgId = archivePgId)

def archiveRangeList (backups : List InfoBackupData) (retention : InfoBackupData) :
    List ArchiveRange :=
  backups.filterMap (archiveRange retention)

/-- The start of the retention backup as the range loop meets it. -/
def archiveExpireMax (backups : List InfoBackupData) (retention : InfoBackupData) : Str :=
  (((backups.filter (fun data => data.backupLabel = retention.backupLabel)).filterMap
    (·.backupArchiveStart)).getLast?).getD []

def ArchiveRange.keepsPath (range : ArchiveRange) (walPath : Str) : Bool :=
  decide (strSubN range.start 0 16 ≤ walPath) &&
    (match range.stop with
      | none => true
      | some stop => decide (walPath ≤ strSubN stop 0 16))

def ArchiveRange.keepsFile (range : ArchiveRange) (walSubPath : Str) : Bool :=
  decide (range.start ≤ strSubN walSubPath 0 24) &&
    (match range.stop with
      | none => true
      | some stop => decide (strSubN walSubPath 0 24 ≤ stop))

end Selection

section Removal

structure ArchiveExpired where
  total : Nat := 0
  start : Option Str := none
  stop : Option Str := none

/-- `logExpire`: force out the pending range. -/
def logExpire (repoIdx : Nat) (archiveId : Str) (archiveExpire : ArchiveExpired) :
    Command ArchiveExpired := do
  match archiveExpire.start with
  | none => return archiveExpire
  | some start =>
    logEvent (.removeArchive repoIdx archiveId start (archiveExpire.stop.getD []))
    return { archiveExpire with start := none }

def removeWalFile (repoIdx : Nat) (archiveId walPath : Str) (ranges : List ArchiveRange)
    (archiveExpire : ArchiveExpired) (walSubPath : Str) : Command ArchiveExpired := do
  if ranges.any (·.keepsFile walSubPath) then
    logExpire repoIdx archiveId archiveExpire
  else
    storageWrite repoIdx (fun storage => storage.remove (archivePath archiveId ++ [walPath, walSubPath]))
    return {
      total := archiveExpire.total + 1
      start := some (archiveExpire.start.getD (strSubN walSubPath 0 24))
      stop := some (strSubN walSubPath 0 24) }

/-- One WAL directory: remove it whole, or look at its files, or leave it. -/
def removeWalPath (repoIdx : Nat) (archiveId : Str) (ranges : List ArchiveRange)
    (expireMax : Str) (archiveExpire : ArchiveExpired) (walPath : Str) :
    Command ArchiveExpired := do
  if !ranges.any (·.keepsPath walPath) then
    storageWrite repoIdx (fun storage => storage.removeTree (archivePath archiveId ++ [walPath]))
    return {
      total := archiveExpire.total + 1
      start := some walPath
      stop := some walPath }
  else if walPath ≤ strSubN expireMax 0 16 then
    let storage ← storageRepoIdx repoIdx
    let walSubPathList :=
      strLstSort (storageList storage (archivePath archiveId ++ [walPath]) walSegmentFile) .asc
    walSubPathList.foldlM (removeWalFile repoIdx archiveId walPath ranges) archiveExpire
  else
    return archiveExpire

/-- History files of timelines older than that of the retention backup. -/
def removeHistoryFile (repoIdx : Nat) (archiveId timeline : Str) (historyFile : Str) :
    Command PUnit := do
  if strSubN historyFile 0 8 < timeline then
    storageWrite repoIdx (fun storage => storage.remove (archivePath archiveId ++ [historyFile]))
    logEvent (.removeHistoryFile repoIdx archiveId historyFile)

def removeHistoryFiles (repoIdx : Nat) (archiveId timeline : Str) : Command PUnit := do
  let storage ← storageRepoIdx repoIdx
  let historyFilesList :=
    strLstSort (storageList storage (archivePath archiveId) walTimelineHistory) .asc
  historyFilesList.foldlM (fun _ file => removeHistoryFile repoIdx archiveId timeline file) ⟨⟩

/-- The detail message for each range. -/
def logRetention (repoIdx : Nat) (archiveId : Str) (retention : InfoBackupData)
    (backups : List InfoBackupData) : Command PUnit :=
  backups.foldlM (fun _ data =>
    match archiveRange retention data with
    | none => pure ⟨⟩
    | some range => logEvent (.archiveRetention repoIdx archiveId data.backupLabel range.start range.stop))
    ⟨⟩

def removeWal (repoIdx : Nat) (archiveId : Str) (backups : List InfoBackupData)
    (retention : InfoBackupData) (archiveStart : Str) : Command PUnit := do
  logRetention repoIdx archiveId retention backups
  let ranges := archiveRangeList backups retention
  let storage ← storageRepoIdx repoIdx
  let walPathList := strLstSort (storageList storage (archivePath archiveId) walSegmentDir) .asc
  let archiveExpire ← walPathList.foldlM
    (removeWalPath repoIdx archiveId ranges (archiveExpireMax backups retention)) {}
  if archiveExpire.total = 0 then
    logEvent (.noArchiveToRemove repoIdx archiveId)
  else
    let _ ← logExpire repoIdx archiveId archiveExpire
  removeHistoryFiles repoIdx archiveId (strSubN archiveStart 0 8)

/-- One entry of the archive.info history. -/
def removeExpiredArchiveId (info : InfoBackup) (global : List Str) (archiveRetention : Nat)
    (infoArchivePg : InfoPg) (listArchiveDisk : List Str) (repoIdx : Nat) (archiveId : Str) :
    Command PUnit := do
  let pgId := archivePgId archiveId
  if archiveId ∈ listArchiveDisk then
    if (localBackupRetentionList info global pgId).isEmpty then
      let currentPg ← orThrow (infoPgDataCurrent infoArchivePg)
      if currentPg.id ≠ pgId then
        logEvent (.removeArchivePath repoIdx archiveId)
        storageWrite repoIdx (fun storage => storage.removeTree (archivePath archiveId))
    else
      match archiveRetentionSelect info global archiveRetention pgId with
      | none => pure ⟨⟩
      | some retention =>
        match retention.backupArchiveStart with
        | none => pure ⟨⟩
        | some start =>
          removeWal repoIdx archiveId (archiveIdBackupList info pgId) retention start

def historyMatch (archivePg backupPg : InfoPg) : Except Error PUnit := do
  let _ ← (List.range archivePg.history.length).foldlM (fun (_ : PUnit) infoPgIdx => do
    let archiveInfoPgHistory ← infoPgData archivePg infoPgIdx
    let backupInfoPgHistory ← infoPgData backupPg infoPgIdx
    if archiveInfoPgHistory.id ≠ backupInfoPgHistory.id ||
        archiveInfoPgHistory.systemId ≠ backupInfoPgHistory.systemId ||
        archiveInfoPgHistory.version ≠ backupInfoPgHistory.version then
      throw ⟨.formatError, ("archive expiration cannot continue - archive and backup history" ++
        " lists do not match").toList⟩) ⟨⟩

/-- The part of `removeExpiredArchive` that runs when there are backups enough. -/
def removeArchives (info : InfoBackup) (global : List Str) (archiveRetention : Nat)
    (repoIdx : Nat) : Command PUnit := do
  let storage ← storageRepoIdx repoIdx
  let infoArchive ← orThrow (infoArchiveLoadFile storage)
  let listArchiveDisk := storageList storage [storageRepoArchive] archiveDirDbVersion
  orThrow (historyMatch infoArchive.infoPg info.infoPg)
  (infoArchive.infoPg.history.reverse.map infoPgArchiveId).foldlM (fun _ archiveId =>
    removeExpiredArchiveId info global archiveRetention infoArchive.infoPg listArchiveDisk repoIdx
      archiveId) ⟨⟩

def removeExpiredArchive (info : InfoBackup) (timeBasedFullRetention : Bool) (repoIdx : Nat) :
    Command PUnit := do
  let option ← repoOptionIdx repoIdx
  let archiveRetention := option.retentionArchive.getD 0
  if archiveRetention = 0 then
    if timeBasedFullRetention then
      logEvent (.archiveRetentionNotMet repoIdx)
    else
      logEvent (.archiveRetentionNotSet repoIdx)
  else
    let global := globalBackupRetentionList info option.retentionArchiveType
    if !global.isEmpty && archiveRetention ≤ global.length then
      removeArchives info global archiveRetention repoIdx

end Removal

section Keeps

/-- Where a WAL segment file is stored: below the first 16 characters of its name. -/
def walSegmentPath (archiveId file : Str) : List Str :=
  archivePath archiveId ++ [strSubN file 0 16, file]

/-- One range keeps both the directory and the file of a segment. -/
def Kept (ranges : List ArchiveRange) (file : Str) : Prop :=
  ∃ range ∈ ranges, range.keepsPath (strSubN file 0 16) = true ∧ range.keepsFile file = true

variable {repoIdx : Nat} {archiveId file : Str} {ranges : List ArchiveRange}

theorem logExpire_keeps {p : List Str} {idx : Nat} {id : Str} (archiveExpire : ArchiveExpired) :
    Keeps (SameNode repoIdx p) (logExpire idx id archiveExpire) := by
  rw [logExpire]
  cases archiveExpire.start with
  | none => exact sameNode_pure _
  | some start => exact sameNode_bind (sameNode_logEvent _) (fun _ => sameNode_pure _)

theorem removeWalFile_keeps {id : Str} (kept : id = archiveId → Kept ranges file) (walPath : Str)
    (archiveExpire : ArchiveExpired) (walSubPath : Str) :
    Keeps (SameNode repoIdx (walSegmentPath archiveId file))
      (removeWalFile repoIdx id walPath ranges archiveExpire walSubPath) := by
  rw [removeWalFile]
  by_cases h : ranges.any (·.keepsFile walSubPath) = true
  · rw [if_pos h]
    exact logExpire_keeps archiveExpire
  · rw [if_neg h]
    refine sameNode_bind (sameNode_storageWrite (fun t => node_remove_of_ne ?_))
      (fun _ => sameNode_pure _)
    intro same
    simp only [walSegmentPath, archivePath, List.cons_append, List.nil_append, List.cons.injEq,
      true_and, and_true] at same
    obtain ⟨sameId, -, sameFile⟩ := same
    obtain ⟨range, mem, -, keepsFile⟩ := kept sameId.symm
    exact h (List.any_eq_true.mpr ⟨range, mem, sameFile ▸ keepsFile⟩)

theorem removeWalPath_keeps {id : Str} (kept : id = archiveId → Kept ranges file)
    (expireMax : Str) (archiveExpire : ArchiveExpired) (walPath : Str) :
    Keeps (SameNode repoIdx (walSegmentPath archiveId file))
      (removeWalPath repoIdx id ranges expireMax archiveExpire walPath) := by
  rw [removeWalPath]
  split
  · rename_i h
    refine sameNode_bind (sameNode_storageWrite (fun t => node_removeTree_of_not_prefix ?_))
      (fun _ => sameNode_pure _)
    intro below
    -- The removed directory would be that of the segment, which a range keeps.
    simp only [walSegmentPath, archivePath, List.cons_append, List.nil_append,
      List.cons_prefix_cons, true_and] at below
    obtain ⟨sameId, samePath, -⟩ := below
    obtain ⟨range, mem, keepsPath, -⟩ := kept sameId
    have any : ranges.any (·.keepsPath walPath) = true :=
      List.any_eq_true.mpr ⟨range, mem, samePath ▸ keepsPath⟩
    rw [any] at h
    cases h
  · split
    · exact sameNode_bind (fun _ => rfl) (fun storage =>
        sameNode_foldlM _ (fun b a _ => removeWalFile_keeps kept walPath b a) archiveExpire)
    · exact sameNode_pure _

theorem removeHistoryFiles_keeps {id : Str} (timeline : Str) :
    Keeps (SameNode repoIdx (walSegmentPath archiveId file))
      (removeHistoryFiles repoIdx id timeline) := by
  refine sameNode_bind (fun _ => rfl) (fun storage => sameNode_foldlM _ (fun b a _ => ?_) _)
  rw [removeHistoryFile]
  split
  · refine sameNode_bind (sameNode_storageWrite (fun t => node_remove_of_ne ?_))
      (fun _ => sameNode_logEvent _)
    simp [walSegmentPath, archivePath]
  · exact sameNode_pure _

theorem logRetention_keeps {p : List Str} (retention : InfoBackupData)
    (backups : List InfoBackupData) :
    Keeps (SameNode repoIdx p) (logRetention repoIdx archiveId retention backups) := by
  refine sameNode_foldlM _ (fun b a _ => ?_) _
  cases archiveRange retention a with
  | none => exact sameNode_pure _
  | some range => exact sameNode_logEvent _

theorem removeWal_keeps {id : Str} {backups : List InfoBackupData} {retention : InfoBackupData}
    (kept : id = archiveId → Kept (archiveRangeList backups retention) file) (start : Str) :
    Keeps (SameNode repoIdx (walSegmentPath archiveId file))
      (removeWal repoIdx id backups retention start) := by
  refine sameNode_bind (logRetention_keeps retention backups) (fun _ => ?_)
  refine sameNode_bind (fun _ => rfl) (fun storage => ?_)
  refine sameNode_bind
    (sameNode_foldlM _ (fun b a _ => removeWalPath_keeps kept _ b a) _) (fun archiveExpire => ?_)
  dsimp only
  split
  · exact sameNode_bind (sameNode_logEvent _) (fun _ => removeHistoryFiles_keeps _)
  · exact sameNode_bind (logExpire_keeps archiveExpire) (fun _ => removeHistoryFiles_keeps _)

end Keeps

section Ranges

variable {info : InfoBackup}

/-- A range that starts at or before a segment starts at or before its directory. -/
theorem strSubN_le_of_le {start file : Str} (h : start ≤ strSubN file 0 24) :
    strSubN start 0 16 ≤ strSubN file 0 16 := by
  have := take_le_take h 16
  rw [strSubN, List.take_take] at this
  simpa [strSubN] using this

theorem le_strSubN_of_le {stop file : Str} (h : strSubN file 0 24 ≤ stop) :
    strSubN file 0 16 ≤ strSubN stop 0 16 := by
  have := take_le_take h 16
  rw [strSubN, List.take_take] at this
  simpa [strSubN] using this

theorem kept_of_mem {ranges : List ArchiveRange} {range : ArchiveRange} {file : Str}
    (mem : range ∈ ranges) (above : range.start ≤ strSubN file 0 24)
    (below : ∀ stop, range.stop = some stop → strSubN file 0 24 ≤ stop) : Kept ranges file := by
  refine ⟨range, mem, ?_, ?_⟩
  · rw [ArchiveRange.keepsPath, decide_eq_true (strSubN_le_of_le above), Bool.true_and]
    cases hs : range.stop with
    | none => rfl
    | some stop => exact decide_eq_true (le_strSubN_of_le (below stop hs))
  · rw [ArchiveRange.keepsFile, decide_eq_true above, Bool.true_and]
    cases hs : range.stop with
    | none => rfl
    | some stop => exact decide_eq_true (below stop hs)

theorem mem_archiveRangeList {backups : List InfoBackupData} {retention data : InfoBackupData}
    {start : Str} (mem : data ∈ backups) (older : data.backupLabel ≤ retention.backupLabel)
    (hstart : data.backupArchiveStart = some start) :
    (⟨start, if data.backupLabel ≠ retention.backupLabel then data.backupArchiveStop else none⟩ :
      ArchiveRange) ∈ archiveRangeList backups retention := by
  refine List.mem_filterMap.mpr ⟨data, mem, ?_⟩
  rw [archiveRange, if_pos older, hstart]
  rfl

theorem eq_of_label {a b : InfoBackupData} (distinct : (info.backup.map (·.backupLabel)).Nodup)
    (ha : a ∈ info.backup) (hb : b ∈ info.backup) (same : a.backupLabel = b.backupLabel) : a = b :=
  List.inj_on_of_nodup_map distinct ha hb same

theorem archiveRetentionSelect_spec (distinct : (info.backup.map (·.backupLabel)).Nodup)
    {global : List Str} {archiveRetention pgId : Nat} {retention : InfoBackupData}
    (h : archiveRetentionSelect info global archiveRetention pgId = some retention) :
    retention ∈ info.backup ∧ retention.backupPgId = pgId := by
  rw [archiveRetentionSelect, Option.bind_eq_some_iff] at h
  obtain ⟨selected, hhead, hlast⟩ := h
  have hmem := List.mem_of_getLast? hlast
  rw [List.mem_filter, decide_eq_true_eq] at hmem
  obtain ⟨listed, hlabel⟩ := hmem
  refine ⟨listed, ?_⟩
  have isLocal : selected ∈ localBackupRetentionList info global pgId := by
    have hsel := List.mem_of_head? hhead
    rw [localBackupArchiveRetentionList] at hsel
    split at hsel
    · exact List.mem_of_getLast? (Option.mem_toList.mp hsel)
    · obtain ⟨label, -, hin⟩ := List.mem_flatMap.mp hsel
      exact (List.mem_filter.mp hin).1
  obtain ⟨label, -, hin⟩ := List.mem_flatMap.mp isLocal
  obtain ⟨data, hdata, rfl⟩ := List.mem_map.mp hin
  obtain ⟨hd, hboth⟩ := List.mem_filter.mp hdata
  have same := eq_of_label distinct listed hd hlabel
  rw [same]
  simpa using (Bool.and_eq_true_iff.mp hboth).2

end Ranges

section Main

def StartsOrdered (info : InfoBackup) (pgId : Nat) : Prop :=
  ∀ a ∈ info.backup, ∀ b ∈ info.backup, a.backupPgId = pgId → b.backupPgId = pgId →
    a.backupLabel ≤ b.backupLabel →
      ∀ s ∈ a.backupArchiveStart, ∀ t ∈ b.backupArchiveStart, s ≤ t

def FullListed (info : InfoBackup) (pgId : Nat) : Prop :=
  (∃ data ∈ info.backup, data.backupPgId = pgId) →
    ∃ data ∈ info.backup, data.backupPgId = pgId ∧ labelFull data.backupLabel = true

/-- The segment lies between the archive start and stop of a listed backup. -/
def NeededByBackup (info : InfoBackup) (pgId : Nat) (file : Str) : Prop :=
  ∃ data ∈ info.backup, data.backupPgId = pgId ∧
    (∃ start ∈ data.backupArchiveStart, start ≤ strSubN file 0 24) ∧
    (∃ stop ∈ data.backupArchiveStop, strSubN file 0 24 ≤ stop)

def NeededByRetention (info : InfoBackup) (option : RepoOption) (pgId : Nat) (file : Str) : Prop :=
  ∃ retention start, archiveRetentionSelect info
      (globalBackupRetentionList info option.retentionArchiveType)
      (option.retentionArchive.getD 0) pgId = some retention ∧
    retention.backupArchiveStart = some start ∧ start ≤ strSubN file 0 24

variable {info : InfoBackup} {global : List Str} {archiveRetention pgId : Nat}
  {retention : InfoBackupData} {start file : Str}

theorem kept_of_retention (distinct : (info.backup.map (·.backupLabel)).Nodup)
    (select : archiveRetentionSelect info global archiveRetention pgId = some retention)
    (hstart : retention.backupArchiveStart = some start) (above : start ≤ strSubN file 0 24) :
    Kept (archiveRangeList (archiveIdBackupList info pgId) retention) file := by
  obtain ⟨listed, hpg⟩ := archiveRetentionSelect_spec distinct select
  have mem : retention ∈ archiveIdBackupList info pgId :=
    List.mem_filter.mpr ⟨listed, decide_eq_true hpg⟩
  have range := mem_archiveRangeList mem le_rfl hstart
  rw [if_neg (not_not.mpr rfl)] at range
  exact kept_of_mem range above (fun stop h => by cases h)

theorem kept_of_backup (distinct : (info.backup.map (·.backupLabel)).Nodup)
    (ordered : StartsOrdered info pgId)
    (select : archiveRetentionSelect info global archiveRetention pgId = some retention)
    (hstart : retention.backupArchiveStart = some start) (needed : NeededByBackup info pgId file) :
    Kept (archiveRangeList (archiveIdBackupList info pgId) retention) file := by
  obtain ⟨data, hd, hpg, ⟨first, hfirst, above⟩, ⟨last, hlast, below⟩⟩ := needed
  rcases le_total data.backupLabel retention.backupLabel with older | later
  · have mem : data ∈ archiveIdBackupList info pgId :=
      List.mem_filter.mpr ⟨hd, decide_eq_true hpg⟩
    refine kept_of_mem (mem_archiveRangeList mem older hfirst) above ?_
    intro stop hstop
    split at hstop
    · rw [Option.mem_def.mp hlast] at hstop
      exact Option.some.inj hstop ▸ below
    · cases hstop
  · obtain ⟨listed, hpg'⟩ := archiveRetentionSelect_spec distinct select
    have le := ordered retention listed data hd hpg' hpg later start hstart first hfirst
    exact kept_of_retention distinct select hstart (le.trans above)

theorem localBackupRetentionList_ne_nil (type : BackupType)
    (full : ∃ data ∈ info.backup, data.backupPgId = pgId ∧ labelFull data.backupLabel = true) :
    localBackupRetentionList info (globalBackupRetentionList info type) pgId ≠ [] := by
  obtain ⟨data, hd, hpg, hfull⟩ := full
  have passes : archiveRetentionFilter type data.backupLabel = true := by
    cases type with
    | full => exact hfull
    | diff => exact backupRegExp_of_labelFull rfl hfull
    | incr => exact backupRegExp_of_labelFull rfl hfull
  have inGlobal : data.backupLabel ∈ globalBackupRetentionList info type :=
    mem_strLstSort.mpr (List.mem_filter.mpr ⟨List.mem_map.mpr ⟨data, hd, rfl⟩, passes⟩)
  have inLocal : data.backupLabel ∈
      localBackupRetentionList info (globalBackupRetentionList info type) pgId := by
    refine List.mem_flatMap.mpr ⟨data.backupLabel, List.mem_reverse.mpr inGlobal, ?_⟩
    exact List.mem_map.mpr ⟨data, List.mem_filter.mpr ⟨hd, by simp [hpg]⟩, rfl⟩
  exact List.ne_nil_of_mem inLocal

theorem archiveRetentionSelect_of_nil (h : localBackupRetentionList info global pgId = []) :
    archiveRetentionSelect info global archiveRetention pgId = none := by
  rw [archiveRetentionSelect, h, localBackupArchiveRetentionList]
  simp

theorem removeExpiredArchiveId_keeps {archiveId : Str} {repoIdx : Nat} {option : RepoOption}
    {infoArchivePg : InfoPg} {listArchiveDisk : List Str}
    (distinct : (info.backup.map (·.backupLabel)).Nodup)
    (ordered : StartsOrdered info (archivePgId archiveId))
    (full : FullListed info (archivePgId archiveId))
    (needed : NeededByBackup info (archivePgId archiveId) file ∨
      NeededByRetention info option (archivePgId archiveId) file) (id : Str) :
    Keeps (SameNode repoIdx (walSegmentPath archiveId file))
      (removeExpiredArchiveId info (globalBackupRetentionList info option.retentionArchiveType)
        (option.retentionArchive.getD 0) infoArchivePg listArchiveDisk repoIdx id) := by
  rw [removeExpiredArchiveId]
  split
  · split
    · rename_i empty
      refine sameNode_bind (sameNode_orThrow _) (fun currentPg => ?_)
      split
      · refine sameNode_bind (sameNode_logEvent _) (fun _ => sameNode_storageWrite
          (fun t => node_removeTree_of_not_prefix ?_))
        intro below
        simp only [walSegmentPath, archivePath, List.cons_append, List.nil_append,
          List.cons_prefix_cons, true_and] at below
        obtain ⟨rfl, -⟩ := below
        rcases needed with needed | ⟨retention, start, select, -⟩
        · obtain ⟨data, hd, hpg, -⟩ := needed
          exact localBackupRetentionList_ne_nil _ (full ⟨data, hd, hpg⟩)
            (List.isEmpty_iff.mp empty)
        · rw [archiveRetentionSelect_of_nil (List.isEmpty_iff.mp empty)] at select
          cases select
      · exact sameNode_pure _
    · split
      · exact sameNode_pure _
      · rename_i retention select
        split
        · exact sameNode_pure _
        · rename_i start hstart
          refine removeWal_keeps (fun same => ?_) start
          subst same
          rcases needed with needed | ⟨retention', start', select', hstart', above⟩
          · exact kept_of_backup distinct ordered select hstart needed
          · rw [select] at select'
            cases select'
            exact kept_of_retention distinct select hstart' above
  · exact sameNode_pure _

/-- No WAL segment that a listed backup needs to be consistent, or that lies at or after the start
of the backup selected for archive retention, is removed. -/
theorem removeExpiredArchive_keeps_needed {archiveId : Str} {repoIdx : Nat} {w : World}
    (timeBasedFullRetention : Bool) (distinct : (info.backup.map (·.backupLabel)).Nodup)
    (ordered : StartsOrdered info (archivePgId archiveId))
    (full : FullListed info (archivePgId archiveId))
    (needed : NeededByBackup info (archivePgId archiveId) file ∨
      NeededByRetention info (w.config.repo repoIdx) (archivePgId archiveId) file) :
    ((exec (removeExpiredArchive info timeBasedFullRetention repoIdx) w).2.storage repoIdx).node
        (walSegmentPath archiveId file) =
      (w.storage repoIdx).node (walSegmentPath archiveId file) := by
  rw [removeExpiredArchive, exec_bind_of_ok (exec_repoOptionIdx repoIdx w)]
  dsimp only
  split
  · split
    · rfl
    · rfl
  · split
    · have read : Keeps (SameNode repoIdx (walSegmentPath archiveId file))
          (storageRepoIdx repoIdx) := fun _ => rfl
      refine sameNode_bind read (fun storage => ?_) w
      refine sameNode_bind (sameNode_orThrow _) (fun infoArchive => ?_)
      refine sameNode_bind (sameNode_orThrow _) (fun _ => ?_)
      exact sameNode_foldlM _ (fun _ id _ =>
        removeExpiredArchiveId_keeps distinct ordered full needed id) _
    · rfl

/-- A repository with one archive id for each of two clusters. -/
def twoClusters : InfoPg := ⟨[⟨2, 2, 2, 100000⟩, ⟨1, 1, 1, 90600⟩], 0⟩

def clusterSegment : Str := "000000010000000000000002-a".toList

def clusterStorage : Storage :=
  ⟨[(infoArchiveFile, .file (.infoArchive ⟨twoClusters⟩)),
    (archivePath "9.6-1".toList, .dir),
    (archivePath "9.6-1".toList ++ ["0000000100000000".toList], .dir),
    (walSegmentPath "9.6-1".toList clusterSegment, .file .other),
    (walSegmentPath "9.6-1".toList "000000010000000000000001-a".toList, .file .other)]⟩

def clusterWorld : World where
  now := 0
  timeText := fun _ => []
  config := { repo := fun _ => { retentionArchive := some 1 } }
  storage := fun _ => clusterStorage

/-- An entry with a WAL range of one segment. -/
def clusterBackup (label : String) (pgId : Nat) (wal : String) : InfoBackupData where
  backupLabel := label.toList
  backupPgId := pgId
  backupArchiveStart := some wal.toList
  backupArchiveStop := some wal.toList

def fullInfo : InfoBackup :=
  ⟨twoClusters, [clusterBackup "20200101-000000F" 1 "000000010000000000000002",
    clusterBackup "20200103-000000F" 2 "000000010000000000000009"]⟩

/-- The segment before the range is removed and the one inside it is kept. -/
theorem removeExpiredArchive_keeps_needed_full :
    ((exec (removeExpiredArchive fullInfo false 0) clusterWorld).2.storage 0).node
        (walSegmentPath "9.6-1".toList clusterSegment) =
      (clusterStorage.node (walSegmentPath "9.6-1".toList clusterSegment)) ∧
    (((exec (removeExpiredArchive fullInfo false 0) clusterWorld).2.storage 0).node
        (walSegmentPath "9.6-1".toList "000000010000000000000001-a".toList)).isNone = true := by
  refine ⟨removeExpiredArchive_keeps_needed (w := clusterWorld) false (by decide) ?_ ?_ (Or.inl ?_),
    by decide⟩
  · unfold StartsOrdered; decide
  · unfold FullListed; decide
  · unfold NeededByBackup; decide

/-- Only an incremental backup is listed for the older cluster. -/
def orphanInfo : InfoBackup :=
  ⟨twoClusters, [clusterBackup "20200101-000000F_20200102-000000I" 1 "000000010000000000000002",
    clusterBackup "20200103-000000F" 2 "000000010000000000000009"]⟩

/-- Without a full backup for an archive id that is not current, the whole archive path is
removed, with the WAL that the incremental backup needs. -/
theorem removeExpiredArchive_drops_needed :
    (orphanInfo.backup.map (·.backupLabel)).Nodup ∧
    StartsOrdered orphanInfo (archivePgId "9.6-1".toList) ∧
    (∀ data ∈ orphanInfo.backup, ∀ start ∈ data.backupArchiveStart,
      ∀ stop ∈ data.backupArchiveStop, start ≤ stop) ∧
    NeededByBackup orphanInfo (archivePgId "9.6-1".toList) clusterSegment ∧
    (clusterStorage.node (walSegmentPath "9.6-1".toList clusterSegment)).isSome = true ∧
    (((exec (removeExpiredArchive orphanInfo false 0) clusterWorld).2.storage 0).node
      (walSegmentPath "9.6-1".toList clusterSegment)).isNone = true := by
  refine ⟨by decide, ?_, by decide, ?_, by decide, by decide⟩
  · unfold StartsOrdered; decide
  · unfold NeededByBackup; decide

end Main

end ExpireArchive
