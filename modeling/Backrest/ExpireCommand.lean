import Backrest.ExpireArchive

/-!
# cmdExpire

The command loads backup.info of each repository, expires by request or by
retention, saves backup.info, and removes from the repository what is no longer
listed. An error in one repository is logged and the next one is processed.
-/

namespace ExpireCommand

open Text LexOrder BackupCommon BackupManifest BackupInfo FileTree Effects Repository Expire
open ExpireArchive

section Load

def reconstructRemove (storage : Storage) (info : InfoBackup) (label : Str) :
    Command InfoBackup := do
  if !storageExists storage (manifestFileName label) && (infoBackupDataByLabel info label).isSome then
    (strLstSort (infoBackupDataDependentList info label) .desc).foldlM
      (fun info removeBackup => do
        logEvent (.missingManifest removeBackup)
        return infoBackupDataDelete info removeBackup) info
  else
    return info

/-- Does the manifest belong to a cluster of the history, with a prior that is listed? -/
def reconstructValid (info : InfoBackup) (manData : ManifestData) : Bool :=
  info.infoPg.history.any (fun pgHistory =>
    decide (manData.pgId = pgHistory.id) && decide (manData.pgSystemId = pgHistory.systemId) &&
      decide (manData.pgVersion = pgHistory.version) &&
      (match manData.backupLabelPrior with
        | none => true
        | some prior => (infoBackupDataByLabel info prior).isSome))

/-- Add a complete backup that is in the repository but not listed. -/
def reconstructAdd (storage : Storage) (backupCurrentList : List Str) (info : InfoBackup)
    (label : Str) : Command InfoBackup := do
  if label ∉ backupCurrentList && storageExists storage (manifestFileName label) then
    let manifest ← orThrow (manifestLoadFile storage label)
    if reconstructValid info manifest.data then
      logEvent (.backupAdded label)
      orThrow (infoBackupDataAdd info manifest)
    else
      logEvent (.backupInvalid manifest.data.backupLabel)
      return info
  else
    return info

def infoBackupLoadFileReconstruct (storage : Storage) : Command InfoBackup := do
  let info ← orThrow (infoBackupLoadFile storage)
  let backupList := strLstSort (storageList storage [storageRepoBackup] labelAny) .asc
  let info ← (strLstSort (infoBackupDataLabelList info (fun _ => true)) .asc).foldlM
    (reconstructRemove storage) info
  let backupCurrentList := strLstSort (infoBackupDataLabelList info (fun _ => true)) .asc
  backupList.foldlM (reconstructAdd storage backupCurrentList) info

/-- The messages of the load. -/
def LoadEvent : LogEvent → Prop
  | .missingManifest _ | .backupAdded _ | .backupInvalid _ => True
  | _ => False

theorem infoBackupLoadFileReconstruct_onlyLogs (storage : Storage) :
    OnlyLogs LoadEvent (infoBackupLoadFileReconstruct storage) := by
  refine OnlyLogs.bind (OnlyLogs.orThrow _) (fun info => ?_)
  refine OnlyLogs.bind (OnlyLogs.foldlM _ (fun info label _ => ?_) _) (fun info => ?_)
  · rw [reconstructRemove]
    split
    · exact OnlyLogs.foldlM _ (fun info label _ =>
        OnlyLogs.bind (OnlyLogs.logEvent trivial) (fun _ => OnlyLogs.pure _)) _
    · exact OnlyLogs.pure _
  · refine OnlyLogs.foldlM _ (fun info label _ => ?_) _
    rw [reconstructAdd]
    split
    · refine OnlyLogs.bind (OnlyLogs.orThrow _) (fun manifest => ?_)
      split
      · exact OnlyLogs.bind (OnlyLogs.logEvent trivial) (fun _ => OnlyLogs.orThrow _)
      · exact OnlyLogs.bind (OnlyLogs.logEvent trivial) (fun _ => OnlyLogs.pure _)
    · exact OnlyLogs.pure _

/-- `infoBackupSaveFile`: the file and its copy. -/
def infoBackupSaveFile (info : InfoBackup) (storage : Storage) : Storage :=
  (storage.put infoBackupFile (.infoBackup info)).put infoBackupFileCopy (.infoBackup info)

end Load

section Backups

/-- Is the newest backup on disk a resumable one that must stay? -/
def resumableKeep (storage : Storage) (info : InfoBackup) (adhocBackupLabel latest : Str) :
    Except Error Bool := do
  if !storageExists storage (manifestFileName latest) &&
      storageExists storage (manifestCopyFileName latest) then
    if !strBeginsWith latest (strSubN adhocBackupLabel 0 16) then
      return true
    else
      let manifestResume ← manifestLoadFile storage latest
      return (manifestResume.data.backupLabelPrior.bind (infoBackupDataByLabel info)).isSome
  else
    return false

/-- The backups on disk that may be removed: all, or all but the resumable one. -/
def removeCandidates (storage : Storage) (info : InfoBackup) (adhocBackupLabel : Option Str)
    (backupList : List Str) : Except Error (List Str) := do
  match adhocBackupLabel with
  | none => return backupList
  | some label =>
    if ← resumableKeep storage info label (← lstGet backupList 0) then
      return backupList.drop 1
    else
      return backupList

def removeBackupPath (repoIdx : Nat) (currentBackupList : List Str) (label : Str) :
    Command PUnit := do
  if label ∉ currentBackupList then
    logEvent (.removeBackup repoIdx label)
    storageWrite repoIdx (fun storage => storage.removeTree (backupPath label))

def removeExpiredBackup (info : InfoBackup) (adhocBackupLabel : Option Str) (repoIdx : Nat) :
    Command PUnit := do
  let currentBackupList := infoBackupDataLabelList info (fun _ => true)
  let storage ← storageRepoIdx repoIdx
  let backupList := strLstSort (storageList storage [storageRepoBackup] labelAny) .desc
  let candidates ← orThrow (removeCandidates storage info adhocBackupLabel backupList)
  candidates.foldlM (fun _ label => removeBackupPath repoIdx currentBackupList label) ⟨⟩

end Backups

section History

def secPerDay : Int := 86400

/-- The expression `^2[0-9]{3}$`. -/
def historyYearName (s : Str) : Bool := decide ((matchChar '2' s >>= matchN isDigit 3) = some [])

/-- A label followed by `.manifest.gz`. -/
def historyFileName (s : Str) : Bool :=
  decide (".manifest.gz".toList ∈
    backupRegExpRest { full := true, differential := true, incremental := true } s)

def historyPath (historyYear : Str) : List Str := [storageRepoBackup, backupPathHistory, historyYear]

theorem historyPath_inj {year year' : Str} {rest rest' : List Str}
    (h : historyPath year ++ rest = historyPath year' ++ rest') : year = year' := by
  simp only [historyPath, List.cons_append, List.cons.injEq, true_and] at h
  exact h.1

def removeHistoryManifest (repoIdx : Nat) (currentBackupList : List Str) (minBackupLabel : Str)
    (historyYear : Str) (historyBackupFile : Str) : Command PUnit := do
  let historyBackupLabel := ((strLstNewSplit '.' historyBackupFile)[0]?).getD []
  if historyBackupLabel ∉ currentBackupList && historyBackupLabel < minBackupLabel then
    logEvent (.removeHistoryManifest repoIdx historyBackupFile)
    storageWrite repoIdx (fun storage => storage.remove (historyPath historyYear ++ [historyBackupFile]))

/-- The loop over the years, which stops at the first one that is kept whole. The listing is read
from the default repository. -/
def removeHistoryYears (repoIdx : Nat) (currentBackupList : List Str) (minBackupLabel : Str) :
    List Str → Command PUnit
  | [] => pure ⟨⟩
  | historyYear :: rest =>
    if historyYear < strSubN minBackupLabel 0 4 then do
      logEvent (.removeHistoryPath repoIdx historyYear)
      storageWrite repoIdx (fun storage => storage.removeTree (historyPath historyYear))
      removeHistoryYears repoIdx currentBackupList minBackupLabel rest
    else if historyYear = strSubN minBackupLabel 0 4 then do
      let storage ← storageRepo
      (strLstSort (storageList storage (historyPath historyYear) historyFileName) .desc).foldlM
        (fun _ file => removeHistoryManifest repoIdx currentBackupList minBackupLabel historyYear file)
        ⟨⟩
      removeHistoryYears repoIdx currentBackupList minBackupLabel rest
    else
      pure ⟨⟩

/-- The label of the oldest full backup whose history is kept. -/
def minBackupLabel (retentionHistory : Nat) : Command Str := do
  let w ← get
  return backupLabelFormat .full none (w.timeText (w.now - retentionHistory * secPerDay))

def removeExpiredHistory (info : InfoBackup) (repoIdx : Nat) : Command PUnit := do
  match (← repoOptionIdx repoIdx).retentionHistory with
  | none => pure ⟨⟩
  | some retentionHistory =>
    let minLabel ← minBackupLabel retentionHistory
    let storage ← storageRepo
    removeHistoryYears repoIdx (infoBackupDataLabelList info (fun _ => true)) minLabel
      (strLstSort (storageList storage [storageRepoBackup, backupPathHistory] historyYearName) .asc)

end History

section Command

/-- `cfgOptionUInt(cfgOptRepoRetentionFull)`: the option of the default repository. -/
def retentionFullDefault : Command Nat := do
  let w ← get
  match (w.config.repo w.config.repoDefault).retentionFull with
  | some value => return value
  | none => throw ⟨.assertError,
      "option 'repo-retention-full' is null but non-null was requested".toList⟩

/-- `time(NULL)` less a number of days. -/
def timeBefore (days : Nat) : Command Int := do
  return (← get).now - days * secPerDay

def expireFullRetention (info : InfoBackup) (option : RepoOption) (repoIdx : Nat) :
    Command (InfoBackup × Nat) :=
  match option.retentionFullType with
  | .time =>
    if option.retentionFull.isSome then do
      let retentionFull ← retentionFullDefault
      let minTimestamp ← timeBefore retentionFull
      expireTimeBasedBackup info minTimestamp repoIdx
    else
      pure (info, 0)
  | .count => expireFullBackup info repoIdx

def expireRetention (info : InfoBackup) (option : RepoOption) (repoIdx : Nat) :
    Command (InfoBackup × Nat) := do
  let state ← expireFullRetention info option repoIdx
  expireDiffBackup state.1 repoIdx

def expireListed (info : InfoBackup) (adhocBackupLabel : Str) (repoIdx : Nat) :
    Command (InfoBackup × Nat) :=
  if (infoBackupDataByLabel info adhocBackupLabel).isSome then do
    modify (fun w => { w with adhocBackupFound := true })
    expireAdhocBackup info adhocBackupLabel repoIdx
  else
    pure (info, 0)

/-- Warn in the last repository when the requested backup was in none. -/
def warnMissing (adhocBackupLabel : Str) (repoIdx repoIdxMax : Nat) : Command PUnit := do
  let w ← get
  if !w.adhocBackupFound && repoIdx = repoIdxMax then
    logEvent (.backupMissing adhocBackupLabel)

def expireRequested (info : InfoBackup) (adhocBackupLabel : Str) (repoIdx repoIdxMax : Nat) :
    Command (InfoBackup × Nat) := do
  let state ← expireListed info adhocBackupLabel repoIdx
  warnMissing adhocBackupLabel repoIdx repoIdxMax
  return state

def expireInfo (info : InfoBackup) (option : RepoOption) (adhocBackupLabel : Option Str)
    (repoIdx repoIdxMax : Nat) : Command (InfoBackup × Nat) :=
  match adhocBackupLabel with
  | some label => expireRequested info label repoIdx repoIdxMax
  | none => expireRetention info option repoIdx

def removeExpired (info : InfoBackup) (option : RepoOption) (adhocBackupLabel : Option Str)
    (repoIdx : Nat) : Command PUnit := do
  removeExpiredBackup info adhocBackupLabel repoIdx
  removeExpiredArchive info (option.retentionFullType = .time) repoIdx
  removeExpiredHistory info repoIdx

/-- What cmdExpire tries for one repository. -/
def expireRepo (adhocBackupLabel : Option Str) (repoIdxMax repoIdx : Nat) : Command PUnit := do
  let option ← repoOptionIdx repoIdx
  let storage ← storageRepoIdx repoIdx
  let info ← infoBackupLoadFileReconstruct storage
  let state ← expireInfo info option adhocBackupLabel repoIdx repoIdxMax
  storageWrite repoIdx (infoBackupSaveFile state.1)
  removeExpired state.1 option adhocBackupLabel repoIdx

def expireRepoCatch (adhocBackupLabel : Option Str) (repoIdxMax : Nat) (errorTotal : Nat)
    (repoIdx : Nat) : Command Nat :=
  tryCatch (do expireRepo adhocBackupLabel repoIdxMax repoIdx; return errorTotal)
    (fun e => do logEvent (.repoError repoIdx e); return errorTotal + 1)

/-- The indexes of the repositories to process. -/
def repoRange (config : Config) : List Nat :=
  if config.repoOption then [config.repoDefault] else List.range config.repoTotal

/-- The label given with `--set` must look like a label. -/
def setCheck (config : Config) : Except Error PUnit :=
  match config.set with
  | some label =>
    if labelAny label then .ok ⟨⟩
    else .error ⟨.optionInvalidValueError,
      '\'' :: label ++ "' is not a valid backup label format".toList⟩
  | none => .ok ⟨⟩

def errorTotalCheck (errorTotal : Nat) : Except Error PUnit :=
  if errorTotal > 0 then
    .error ⟨.commandError, "expire command encountered ".toList ++ fmtUInt errorTotal ++
      " error(s), check the log file for details".toList⟩
  else .ok ⟨⟩

def cmdExpire : Command PUnit := do
  let w ← get
  orThrow (setCheck w.config)
  let repoIdxMax := (repoRange w.config).getLast?.getD 0
  let errorTotal ← (repoRange w.config).foldlM (expireRepoCatch w.config.set repoIdxMax) 0
  orThrow (errorTotalCheck errorTotal)

end Command

end ExpireCommand
