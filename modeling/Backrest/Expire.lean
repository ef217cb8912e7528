import Backrest.Repository

/-!
# The expire command

Expire removes backups by retention from `backup.info`, first their manifests,
then what the repository still holds of backups, WAL and history that no listed
backup needs. Each function follows its source function, with the `InfoBackup`
object passed along and the storage, the options and the log in the state.
-/

namespace Expire

open Text BackupCommon BackupManifest BackupInfo FileTree Effects Repository

section Backups

def expireOne (repoIdx : Nat) (info : InfoBackup) (removeBackupLabel : Str) :
    Command InfoBackup := do
  storageWrite repoIdx (fun storage => storage.remove (manifestFileName removeBackupLabel))
  storageWrite repoIdx (fun storage => storage.remove (manifestCopyFileName removeBackupLabel))
  return infoBackupDataDelete info removeBackupLabel

def expireBackup (info : InfoBackup) (backupLabel : Str) (repoIdx : Nat) :
    Command (InfoBackup × List Str) := do
  let backupList := strLstSort (infoBackupDataDependentList info backupLabel) .desc
  let info ← backupList.foldlM (expireOne repoIdx) info
  return (info, strLstSort backupList .asc)

/-- Expire a set and log it under the rule that expired it. -/
def expireLogged (kind : ExpireKind) (repoIdx : Nat) (state : InfoBackup × Nat)
    (backupLabel : Str) : Command (InfoBackup × Nat) := do
  let (info, backupExpired) ← expireBackup state.1 backupLabel repoIdx
  logEvent (.expire kind repoIdx backupExpired)
  return (info, state.2 + backupExpired.length)

def adhocError (backupLabel : Str) : Error :=
  ⟨.backupSetInvalidError, "full backup ".toList ++ backupLabel ++
    " cannot be expired until another full backup has been created on this repo".toList⟩

/-- The latest full backup may be expired when the one before it is for the same db-id. -/
def expireAdhocCheck (info : InfoBackup) (backupLabel : Str) : Except Error PUnit := do
  let fullList := strLstSort (infoBackupDataLabelList info labelFull) .desc
  if (← lstGet fullList 0) = backupLabel then
    if fullList.length = 1 then
      throw (adhocError backupLabel)
    let prior ← lstGet fullList 1
    if (infoBackupDataByLabel info backupLabel).map (·.backupPgId) ≠
        (infoBackupDataByLabel info prior).map (·.backupPgId) then
      throw (adhocError backupLabel)

/-- `infoBackupData(infoBackup, infoBackupDataTotal(infoBackup) - 1)`; the index wraps when the
list is empty. -/
def infoBackupDataLast (info : InfoBackup) : Except Error InfoBackupData :=
  match info.backup.getLast? with
  | some data => .ok data
  | none => .error (lstGetError 4294967295 0)

/-- `backupLinkLatest` on a storage with symbolic links. -/
def backupLinkLatest (repoIdx : Nat) (_label : Str) : Command PUnit :=
  storageWrite repoIdx (fun storage =>
    (storage.remove [storageRepoBackup, backupLinkName]).put
      [storageRepoBackup, backupLinkName] .other)

/-- Move the latest link when the latest backup was removed. Ad hoc expire is never part of a
backup, so the dry run option must be valid here. -/
def latestUpdate (info : InfoBackup) (latestBackup : Str) (repoIdx : Nat) : Command PUnit := do
  if (infoBackupDataByLabel info latestBackup).isNone then
    logEvent (.expireLatest repoIdx latestBackup)
    if !(← orThrow (← get).config.dryRunBool) then
      backupLinkLatest repoIdx (← orThrow (infoBackupDataLast info)).backupLabel

def expireAdhocBackup (info : InfoBackup) (backupLabel : Str) (repoIdx : Nat) :
    Command (InfoBackup × Nat) := do
  orThrow (expireAdhocCheck info backupLabel)
  let latestBackup ← orThrow (infoBackupDataLast info)
  let (info, backupExpired) ← expireBackup info backupLabel repoIdx
  latestUpdate info latestBackup.backupLabel repoIdx
  logEvent (.expire .adhoc repoIdx backupExpired)
  return (info, backupExpired.length)

def expireDiffList (info : InfoBackup) (differentialRetention : Nat) : List Str :=
  let currentBackupList := infoBackupDataLabelList info labelFullDiff
  (currentBackupList.take (currentBackupList.length - differentialRetention)).filter
    (fun label => !labelFull label)

def expireDiffBackup (info : InfoBackup) (repoIdx : Nat) : Command (InfoBackup × Nat) := do
  let differentialRetention := (← repoOptionIdx repoIdx).retentionDiff.getD 0
  if differentialRetention > 0 then
    (expireDiffList info differentialRetention).foldlM (expireLogged .diff repoIdx) (info, 0)
  else
    return (info, 0)

def expireFullList (info : InfoBackup) (fullRetention : Nat) : List Str :=
  let currentBackupList := infoBackupDataLabelList info labelFull
  currentBackupList.take (currentBackupList.length - fullRetention)

def expireFullBackup (info : InfoBackup) (repoIdx : Nat) : Command (InfoBackup × Nat) := do
  let fullRetention := (← repoOptionIdx repoIdx).retentionFull.getD 0
  if fullRetention > 0 then
    (expireFullList info fullRetention).foldlM (expireLogged .full repoIdx) (info, 0)
  else
    return (info, 0)

/-- From the newest full backup back, the first one that stopped before the time, or the oldest
of all. The list is newest first. -/
def lastBackupLabelToKeep (info : InfoBackup) (minTimestamp : Int) :
    Str → List Str → Str
  | label, [] => label
  | label, older :: rest =>
    if ((infoBackupDataByLabel info label).map (fun data =>
        decide (data.backupTimestampStop < minTimestamp))).getD false then label
    else lastBackupLabelToKeep info minTimestamp older rest

/-- Expire the first entry until it is the one to keep. Each round removes an entry, so the list
is empty when the fuel, the number of entries, runs out. -/
def expireUntilFirst (keep : Str) (repoIdx : Nat) :
    Nat → InfoBackup × Nat → Nat → Command ((InfoBackup × Nat) × Nat)
  | 0, _, _ => throw (lstGetError 0 0)
  | fuel + 1, state, numFullExpired => do
    let first ← orThrow (infoBackupData state.1 0)
    if first.backupLabel = keep then
      return (state, numFullExpired)
    else
      let state ← expireLogged .timeBased repoIdx state first.backupLabel
      expireUntilFirst keep repoIdx fuel state (numFullExpired + 1)

/-- `cfgOptionIdxSet(cfgOptRepoRetentionArchive, ...)`. -/
def Config.retentionArchiveSet (config : Config) (repoIdx value : Nat) : Config :=
  { config with
    repo := fun idx =>
      if idx = repoIdx then { config.repo repoIdx with retentionArchive := some value }
      else config.repo idx }

def retentionArchiveSet (repoIdx value : Nat) : Command PUnit :=
  modify (fun w => { w with config := Config.retentionArchiveSet w.config repoIdx value })

def expireTimeBasedBackup (info : InfoBackup) (minTimestamp : Int) (repoIdx : Nat) :
    Command (InfoBackup × Nat) := do
  let currentBackupList := strLstSort (infoBackupDataLabelList info labelFull) .asc
  match currentBackupList.reverse with
  | [] => return (info, 0)
  | newest :: older =>
    let keep := lastBackupLabelToKeep info minTimestamp newest older
    let (state, numFullExpired) ←
      expireUntilFirst keep repoIdx (infoBackupDataTotal info) (info, 0) 0
    let option ← repoOptionIdx repoIdx
    if option.retentionArchiveType = .full && option.retentionArchive.isNone &&
        numFullExpired > 0 then
      retentionArchiveSet repoIdx (currentBackupList.length - numFullExpired)
    return state

end Backups

section Removal

/-- The storage part of `expireOne`. -/
def removeManifests (repoIdx : Nat) (w : World) (label : Str) : World :=
  (w.write repoIdx (fun storage => storage.remove (manifestFileName label))).write repoIdx
    (fun storage => storage.remove (manifestCopyFileName label))

theorem exec_expireOne_foldlM (repoIdx : Nat) (labels : List Str) (info : InfoBackup)
    (w : World) :
    exec (labels.foldlM (expireOne repoIdx) info) w =
      (.ok (labels.foldl infoBackupDataDelete info), labels.foldl (removeManifests repoIdx) w) := by
  induction labels generalizing info w with
  | nil => rfl
  | cons label rest ih =>
    have first : exec (expireOne repoIdx info label) w =
        (.ok (infoBackupDataDelete info label), removeManifests repoIdx w label) := rfl
    rw [List.foldlM_cons, exec_bind_of_ok first, ih]
    rfl

/-- `expireBackup` as one change of the list and one of the storage. -/
theorem exec_expireBackup (info : InfoBackup) (label : Str) (repoIdx : Nat) (w : World) :
    exec (expireBackup info label repoIdx) w =
      let labels := strLstSort (infoBackupDataDependentList info label) .desc
      (.ok (labels.foldl infoBackupDataDelete info, strLstSort labels .asc),
        labels.foldl (removeManifests repoIdx) w) := by
  rw [expireBackup, exec_bind_of_ok (exec_expireOne_foldlM _ _ _ _)]
  rfl

theorem foldl_removeManifests_read {labels : List Str} {label : Str} (h : label ∉ labels)
    (repoIdx : Nat) (w : World) :
    ((labels.foldl (removeManifests repoIdx) w).storage repoIdx).read (manifestFileName label) =
      (w.storage repoIdx).read (manifestFileName label) := by
  induction labels generalizing w with
  | nil => rfl
  | cons l rest ih =>
    have different : label ≠ l := fun same => h (same ▸ List.mem_cons_self)
    have later : label ∉ rest := fun mem => h (List.mem_cons_of_mem l mem)
    rw [List.foldl_cons, ih later, removeManifests, write_read, write_read]
    · intro t
      apply read_remove_of_ne
      simp [manifestFileName, different]
    · intro t
      apply read_remove_of_ne
      simp [manifestFileName, manifestCopyFileName]

end Removal

end Expire
