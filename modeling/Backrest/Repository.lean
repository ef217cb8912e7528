import Backrest.BackupInfo
import Backrest.Effects
import Backrest.FileTree

/-!
# Repositories and the run of a command

A repository is a file tree. The content of an info file or of a manifest is
kept in its loaded form, and a file that cannot be loaded carries the error of
its load. A command runs over the storage of every configured repository, the
options, the clock and the log.
-/

namespace Repository

open Text BackupCommon BackupManifest BackupInfo FileTree Effects

/-- `archive.info` holds the PostgreSQL history only. -/
structure InfoArchive where
  infoPg : InfoPg

inductive RepoFile where
  | infoBackup (info : InfoBackup)
  | infoArchive (info : InfoArchive)
  | manifest (manifest : Manifest)
  | broken (error : Error)
  | other

abbrev Storage := Tree Str RepoFile

def storageRepoBackup : Str := "<REPO:BACKUP>".toList
def storageRepoArchive : Str := "<REPO:ARCHIVE>".toList
def backupPathHistory : Str := "backup.history".toList
def backupLinkName : Str := "latest".toList

def backupPath (label : Str) : List Str := [storageRepoBackup, label]
def manifestFileName (label : Str) : List Str := [storageRepoBackup, label, "backup.manifest".toList]
def manifestCopyFileName (label : Str) : List Str :=
  [storageRepoBackup, label, "backup.manifest.copy".toList]
def infoBackupFile : List Str := [storageRepoBackup, "backup.info".toList]
def infoBackupFileCopy : List Str := [storageRepoBackup, "backup.info.copy".toList]
def infoArchiveFile : List Str := [storageRepoArchive, "archive.info".toList]
def infoArchiveFileCopy : List Str := [storageRepoArchive, "archive.info.copy".toList]
def archivePath (archiveId : Str) : List Str := [storageRepoArchive, archiveId]

/-- `storageListP`: the names below a path that match; none when the path is missing. -/
def storageList (storage : Storage) (path : List Str) (expression : Str → Bool) : List Str :=
  (storage.children path).filter expression

/-- `storageExistsP`: is there a file at the path? -/
def storageExists (storage : Storage) (path : List Str) : Bool := (storage.read path).isSome

theorem mem_storageList {storage : Storage} {path : List Str} {expression : Str → Bool} {s : Str} :
    s ∈ storageList storage path expression ↔
      (storage.node (path ++ [s])).isSome ∧ expression s = true := by
  rw [storageList, List.mem_filter, mem_children]

theorem strLstSort_storageList_nodup (storage : Storage) (path : List Str) (expression : Str → Bool)
    (order : SortOrder) : (strLstSort (storageList storage path expression) order).Nodup :=
  (strLstSort_perm _ order).nodup_iff.mpr (children_nodup.filter _)

/-- Two storages with entries at the same matching names list the same. -/
theorem strLstSort_storageList_congr {storage storage' : Storage} {path : List Str}
    {expression : Str → Bool} (order : SortOrder)
    (same : ∀ s, expression s = true →
      ((storage.node (path ++ [s])).isSome ↔ (storage'.node (path ++ [s])).isSome)) :
    strLstSort (storageList storage path expression) order =
      strLstSort (storageList storage' path expression) order := by
  refine strLstSort_congr (children_nodup.filter _) (children_nodup.filter _) (fun s => ?_) order
  rw [← storageList, ← storageList, mem_storageList, mem_storageList]
  constructor
  · rintro ⟨entry, matched⟩
    exact ⟨(same s matched).mp entry, matched⟩
  · rintro ⟨entry, matched⟩
    exact ⟨(same s matched).mpr entry, matched⟩

section Load

def errorTypeName : ErrorType → Str
  | .archiveDuplicateError => "ArchiveDuplicateError".toList
  | .archiveMismatchError => "ArchiveMismatchError".toList
  | .assertError => "AssertError".toList
  | .backupSetInvalidError => "BackupSetInvalidError".toList
  | .checksumError => "ChecksumError".toList
  | .commandError => "CommandError".toList
  | .cryptoError => "CryptoError".toList
  | .dbInvalidError => "DbInvalidError".toList
  | .dbMissingError => "DbMissingError".toList
  | .fileCloseError => "FileCloseError".toList
  | .fileExistsError => "FileExistsError".toList
  | .fileInvalidError => "FileInvalidError".toList
  | .fileMissingError => "FileMissingError".toList
  | .fileMoveError => "FileMoveError".toList
  | .fileOpenError => "FileOpenError".toList
  | .fileReadError => "FileReadError".toList
  | .fileRemoveError => "FileRemoveError".toList
  | .fileWriteError => "FileWriteError".toList
  | .formatError => "FormatError".toList
  | .jsonFormatError => "JsonFormatError".toList
  | .linkDestinationError => "LinkDestinationError".toList
  | .linkMapError => "LinkMapError".toList
  | .optionInvalidError => "OptionInvalidError".toList
  | .optionInvalidValueError => "OptionInvalidValueError".toList
  | .optionRequiredError => "OptionRequiredError".toList
  | .pathCreateError => "PathCreateError".toList
  | .pathMissingError => "PathMissingError".toList
  | .pathNotEmptyError => "PathNotEmptyError".toList
  | .pathOpenError => "PathOpenError".toList
  | .repoInvalidError => "RepoInvalidError".toList
  | .tablespaceMapError => "TablespaceMapError".toList

def pathText (path : List Str) : Str := strLstJoin path ['/']

/-- The type `infoLoad` reports for two failed tries. -/
def loadErrorType (first second : ErrorType) : ErrorType :=
  if first = second then first
  else if first = .fileMissingError then second
  else if second = .fileMissingError then first
  else .fileOpenError

def loadErrorLine (e : Error) : Str := '\n' :: errorTypeName e.type ++ ": ".toList ++ e.message

/-- `infoLoad` over a file and its copy. -/
def infoLoad {α : Type} (error : Str) (main copy : Except Error α) : Except Error α :=
  match main with
  | .ok a => .ok a
  | .error e =>
    match copy with
    | .ok a => .ok a
    | .error e' =>
      .error ⟨loadErrorType e.type e'.type, error ++ ':' :: loadErrorLine e ++ loadErrorLine e'⟩

def loadTry {α : Type} (storage : Storage) (select : RepoFile → Option α) (path : List Str) :
    Except Error α :=
  match storage.read path with
  | none => .error ⟨.fileMissingError,
      "unable to open missing file '".toList ++ pathText path ++ "' for read".toList⟩
  | some (.broken e) => .error e
  | some content =>
    match select content with
    | some a => .ok a
    | none => .error ⟨.formatError, "invalid format in '".toList ++ pathText path ++ ['\'']⟩

def loadFile {α : Type} (what : Str) (storage : Storage) (select : RepoFile → Option α)
    (path pathCopy : List Str) : Except Error α :=
  infoLoad ("unable to load ".toList ++ what ++ " file '".toList ++ pathText path ++
      "' or '".toList ++ pathText pathCopy ++ ['\''])
    (loadTry storage select path) (loadTry storage select pathCopy)

def asInfoBackup : RepoFile → Option InfoBackup
  | .infoBackup info => some info
  | _ => none

def asInfoArchive : RepoFile → Option InfoArchive
  | .infoArchive info => some info
  | _ => none

def asManifest : RepoFile → Option Manifest
  | .manifest manifest => some manifest
  | _ => none

def infoBackupLoadFile (storage : Storage) : Except Error InfoBackup :=
  loadFile "info".toList storage asInfoBackup infoBackupFile infoBackupFileCopy

def infoArchiveLoadFile (storage : Storage) : Except Error InfoArchive :=
  loadFile "info".toList storage asInfoArchive infoArchiveFile infoArchiveFileCopy

def manifestLoadFile (storage : Storage) (label : Str) : Except Error Manifest :=
  loadFile "backup manifest".toList storage asManifest (manifestFileName label)
    (manifestCopyFileName label)

theorem loadTry_manifest {storage : Storage} {p : List Str} {manifest : Manifest}
    (h : loadTry storage asManifest p = .ok manifest) :
    (p, .file (.manifest manifest)) ∈ storage.entries := by
  rw [loadTry] at h
  split at h
  · cases h
  · cases h
  · rename_i content _ read
    cases content with
    | manifest manifest' =>
      cases h
      exact mem_of_read read
    | _ => cases h

/-- A manifest that is loaded is in the directory, as the file or as its copy. -/
theorem manifestLoadFile_entry {storage : Storage} {label : Str} {manifest : Manifest}
    (load : manifestLoadFile storage label = .ok manifest) :
    ∃ file, ([storageRepoBackup, label, file], .file (.manifest manifest)) ∈ storage.entries := by
  rw [manifestLoadFile, loadFile, infoLoad.eq_def] at load
  split at load
  next tried =>
    cases load
    exact ⟨_, loadTry_manifest tried⟩
  next =>
    split at load
    next tried =>
      cases load
      exact ⟨_, loadTry_manifest tried⟩
    next => cases load

end Load

section Command

inductive RetentionFullType where
  | count
  | time
  deriving DecidableEq, Repr

/-- The options of one repository that expire reads. -/
structure RepoOption where
  retentionFull : Option Nat := none
  retentionFullType : RetentionFullType := .count
  retentionDiff : Option Nat := none
  retentionArchive : Option Nat := none
  retentionArchiveType : BackupType := .full
  retentionHistory : Option Nat := none
  deriving DecidableEq

structure Config where
  repoTotal : Nat := 1
  repo : Nat → RepoOption
  /-- The repository that an option without an index is read from. -/
  repoDefault : Nat := 0
  /-- Was `--repo` given? -/
  repoOption : Bool := false
  set : Option Str := none
  /-- `none` when the command does not have the option. -/
  dryRun : Option Bool := none

/-- Which retention rule expired a set of backups. -/
inductive ExpireKind where
  | adhoc
  | full
  | diff
  | timeBased
  deriving DecidableEq, Repr

/-- The messages of expire, one constructor for each format. -/
inductive LogEvent where
  | missingManifest (label : Str)
  | backupAdded (label : Str)
  | backupInvalid (label : Str)
  | backupMissing (label : Str)
  | expireLatest (repoIdx : Nat) (label : Str)
  | expire (kind : ExpireKind) (repoIdx : Nat) (labels : List Str)
  | archiveRetentionNotSet (repoIdx : Nat)
  | archiveRetentionNotMet (repoIdx : Nat)
  | archiveRetention (repoIdx : Nat) (archiveId label start : Str) (stop : Option Str)
  | removeArchivePath (repoIdx : Nat) (archiveId : Str)
  | removeArchive (repoIdx : Nat) (archiveId start stop : Str)
  | noArchiveToRemove (repoIdx : Nat) (archiveId : Str)
  | removeHistoryFile (repoIdx : Nat) (archiveId historyFile : Str)
  | removeBackup (repoIdx : Nat) (label : Str)
  | removeHistoryPath (repoIdx : Nat) (historyYear : Str)
  | removeHistoryManifest (repoIdx : Nat) (historyFile : Str)
  | repoError (repoIdx : Nat) (error : Error)
  deriving DecidableEq

structure World where
  now : Int
  /-- `strftime` with `%Y%m%d-%H%M%S` in the local time zone. -/
  timeText : Int → Str
  config : Config
  storage : Nat → Storage
  log : List LogEvent := []
  /-- The local variable of `cmdExpire` of that name, which an error does not reset. -/
  adhocBackupFound : Bool := false

abbrev Command := Effect Error World

def logEvent (event : LogEvent) : Command PUnit :=
  modify (fun w => { w with log := w.log ++ [event] })

def orThrow {α : Type} : Except Error α → Command α
  | .ok a => pure a
  | .error e => throw e

/-- `!cfgOptionValid(cfgOptDryRun) || !cfgOptionBool(cfgOptDryRun)`. -/
def Config.real (config : Config) : Bool := config.dryRun ≠ some true

/-- `cfgOptionBool(cfgOptDryRun)` where the option must be valid. -/
def Config.dryRunBool (config : Config) : Except Error Bool :=
  match config.dryRun with
  | some value => .ok value
  | none => .error ⟨.assertError, "option 'dry-run' is not valid for the current command".toList⟩

def World.update (w : World) (repoIdx : Nat) (change : Storage → Storage) : World :=
  { w with storage := fun idx =>
      if idx = repoIdx then change (w.storage repoIdx) else w.storage idx }

/-- Change the storage of a repository, unless this is a dry run. -/
def World.write (w : World) (repoIdx : Nat) (change : Storage → Storage) : World :=
  if w.config.real then w.update repoIdx change else w

def storageWrite (repoIdx : Nat) (change : Storage → Storage) : Command PUnit :=
  modify (fun w => w.write repoIdx change)

def storageRepoIdx (repoIdx : Nat) : Command Storage := do
  return (← get).storage repoIdx

def storageRepo : Command Storage := do
  let w ← get
  return w.storage w.config.repoDefault

def repoOptionIdx (repoIdx : Nat) : Command RepoOption := do
  return (← get).config.repo repoIdx

@[simp]
theorem exec_logEvent (event : LogEvent) (w : World) :
    exec (logEvent event) w = (.ok ⟨⟩, { w with log := w.log ++ [event] }) := rfl

@[simp]
theorem exec_storageWrite (repoIdx : Nat) (change : Storage → Storage) (w : World) :
    exec (storageWrite repoIdx change) w = (.ok ⟨⟩, w.write repoIdx change) := rfl

@[simp]
theorem exec_storageRepoIdx (repoIdx : Nat) (w : World) :
    exec (storageRepoIdx repoIdx) w = (.ok (w.storage repoIdx), w) := rfl

@[simp]
theorem exec_storageRepo (w : World) :
    exec storageRepo w = (.ok (w.storage w.config.repoDefault), w) := rfl

@[simp]
theorem exec_repoOptionIdx (repoIdx : Nat) (w : World) :
    exec (repoOptionIdx repoIdx) w = (.ok (w.config.repo repoIdx), w) := rfl

theorem exec_orThrow_ok {α : Type} {e : Except Error α} {a : α} {w w' : World}
    (h : exec (orThrow e) w = (.ok a, w')) : e = .ok a ∧ w' = w := by
  cases e with
  | error e => cases h
  | ok b =>
    cases h
    exact ⟨rfl, rfl⟩

variable {w : World} {repoIdx : Nat} {change : Storage → Storage}

theorem write_storage_self : (w.write repoIdx change).storage repoIdx =
    if w.config.real then change (w.storage repoIdx) else w.storage repoIdx := by
  rw [World.write]
  split
  · simp [World.update]
  · rfl

theorem write_storage_of_ne {idx : Nat} (h : idx ≠ repoIdx) :
    (w.write repoIdx change).storage idx = w.storage idx := by
  rw [World.write]
  split
  · simp [World.update, h]
  · rfl

@[simp]
theorem write_config : (w.write repoIdx change).config = w.config := by
  rw [World.write]
  split <;> rfl

@[simp]
theorem write_log : (w.write repoIdx change).log = w.log := by
  rw [World.write]
  split <;> rfl

theorem write_of_dryRun (dry : w.config.real = false) (repoIdx : Nat)
    (change : Storage → Storage) : w.write repoIdx change = w := by
  rw [World.write, dry]
  rfl

theorem write_read {p : List Str} (keeps : ∀ t : Storage, (change t).read p = t.read p) :
    ((w.write repoIdx change).storage repoIdx).read p = (w.storage repoIdx).read p := by
  rw [write_storage_self]
  split
  · exact keeps _
  · rfl

section Removes
variable {α β : Type} {v v' v'' : World}

/-- Nothing but the storage of one repository and the log is changed. -/
structure Only (repoIdx : Nat) (v v' : World) : Prop where
  now : v'.now = v.now
  timeText : v'.timeText = v.timeText
  config : v'.config = v.config
  found : v'.adhocBackupFound = v.adhocBackupFound
  storage : ∀ idx, idx ≠ repoIdx → v'.storage idx = v.storage idx

theorem Only.trans (first : Only repoIdx v v') (rest : Only repoIdx v' v'') :
    Only repoIdx v v'' :=
  ⟨rest.now.trans first.now, rest.timeText.trans first.timeText, rest.config.trans first.config,
    rest.found.trans first.found, fun idx h => (rest.storage idx h).trans (first.storage idx h)⟩

theorem only_write (v : World) (change : Storage → Storage) :
    Only repoIdx v (v.write repoIdx change) := by
  refine ⟨?_, ?_, write_config, ?_, fun idx h => write_storage_of_ne h⟩ <;>
    rw [World.write] <;> split <;> rfl

theorem only_log (v : World) (log : List LogEvent) : Only repoIdx v { v with log := log } :=
  ⟨rfl, rfl, rfl, rfl, fun _ _ => rfl⟩

/-- Paths of one repository are removed, and nothing else but the log is changed. -/
structure Removes (repoIdx : Nat) (gone : List Str → Bool) (v v' : World) : Prop where
  only : Only repoIdx v v'
  node : ∀ p, (v'.storage repoIdx).node p = if gone p then none else (v.storage repoIdx).node p

/-- A run ends with a result after it removed the paths. -/
def RunRemoves (repoIdx : Nat) (gone : List Str → Bool) (v : World) (m : Command α) : Prop :=
  ∃ a v', exec m v = (.ok a, v') ∧ Removes repoIdx gone v v'

theorem removes_log (v : World) (log : List LogEvent) :
    Removes repoIdx (fun _ => false) v { v with log := log } :=
  ⟨only_log v log, fun _ => rfl⟩

variable {gone gone' : List Str → Bool} {m : Command α}

theorem Removes.trans (first : Removes repoIdx gone v v') (rest : Removes repoIdx gone' v' v'') :
    Removes repoIdx (fun p => gone p || gone' p) v v'' := by
  refine ⟨first.only.trans rest.only, fun p => ?_⟩
  rw [rest.node, first.node]
  cases gone p <;> cases gone' p <;> rfl

theorem Removes.congr (h : Removes repoIdx gone v v')
    (same : ∀ p, (v.storage repoIdx).node p ≠ none → gone p = gone' p) :
    Removes repoIdx gone' v v' := by
  refine ⟨h.only, fun p => ?_⟩
  rw [h.node]
  by_cases entry : (v.storage repoIdx).node p = none
  · rw [entry]
    simp
  · rw [same p entry]

theorem removes_write (real : v.config.real = true) (repoIdx : Nat)
    (spec : ∀ (t : Storage) p, (change t).node p = if gone p then none else t.node p) :
    Removes repoIdx gone v (v.write repoIdx change) := by
  refine ⟨only_write v change, fun p => ?_⟩
  rw [write_storage_self, if_pos real, spec]

theorem removes_write_or_dry
    (spec : ∀ (t : Storage) p, (change t).node p = if gone p then none else t.node p) :
    Removes repoIdx (fun p => v.config.real && gone p) v (v.write repoIdx change) := by
  cases real : v.config.real with
  | true => exact (removes_write real repoIdx spec).congr (fun p _ => (Bool.true_and _).symm)
  | false =>
    rw [write_of_dryRun real]
    exact removes_log v v.log

theorem runRemoves_pure (a : α) : RunRemoves repoIdx (fun _ => false) v (pure a : Command α) :=
  ⟨a, v, rfl, removes_log v v.log⟩

theorem runRemoves_logEvent (event : LogEvent) :
    RunRemoves repoIdx (fun _ => false) v (logEvent event) :=
  ⟨⟨⟩, _, rfl, removes_log v _⟩

theorem runRemoves_storageWrite
    (spec : ∀ (t : Storage) p, (change t).node p = if gone p then none else t.node p) :
    RunRemoves repoIdx (fun p => v.config.real && gone p) v (storageWrite repoIdx change) :=
  ⟨⟨⟩, _, rfl, removes_write_or_dry spec⟩

theorem RunRemoves.congr (run : RunRemoves repoIdx gone v m)
    (same : ∀ p, (v.storage repoIdx).node p ≠ none → gone p = gone' p) :
    RunRemoves repoIdx gone' v m := by
  obtain ⟨a, v', runs, removes⟩ := run
  exact ⟨a, v', runs, removes.congr same⟩

theorem RunRemoves.bind {f : α → Command β} (first : RunRemoves repoIdx gone v m)
    (rest : ∀ a v', Removes repoIdx gone v v' → RunRemoves repoIdx gone' v' (f a)) :
    RunRemoves repoIdx (fun p => gone p || gone' p) v (m >>= f) := by
  obtain ⟨a, v', run, removes⟩ := first
  obtain ⟨b, v'', run', removes'⟩ := rest a v' removes
  exact ⟨b, v'', by rw [exec_bind_of_ok run, run'], removes.trans removes'⟩

/-- A part that removes nothing does not count. -/
theorem RunRemoves.after {f : α → Command β} (first : RunRemoves repoIdx (fun _ => false) v m)
    (rest : ∀ a v', Removes repoIdx (fun _ => false) v v' → RunRemoves repoIdx gone v' (f a)) :
    RunRemoves repoIdx gone v (m >>= f) :=
  (first.bind rest).congr (fun _ _ => Bool.false_or _)

theorem RunRemoves.foldlM {step : β → α → Command β} {gone : α → List Str → Bool} (items : List α)
    (one : ∀ v', Only repoIdx v v' → ∀ b, ∀ a ∈ items, RunRemoves repoIdx (gone a) v' (step b a))
    (b : β) : RunRemoves repoIdx (fun p => items.any (gone · p)) v (items.foldlM step b) := by
  induction items generalizing v b with
  | nil => exact ⟨b, v, rfl, ⟨⟨rfl, rfl, rfl, rfl, fun _ _ => rfl⟩, fun _ => rfl⟩⟩
  | cons a rest ih =>
    rw [List.foldlM_cons]
    have same : Only repoIdx v v := ⟨rfl, rfl, rfl, rfl, fun _ _ => rfl⟩
    refine RunRemoves.bind (one v same b a List.mem_cons_self) (fun b' v' removes => ?_)
    exact ih (fun v'' only c x hx =>
      one v'' (removes.only.trans only) c x (List.mem_cons_of_mem a hx)) b'

end Removes

section OnlyLogs
variable {P : LogEvent → Prop} {α β : Type}

/-- The result does not depend on the state, and only messages of one kind are added to it. -/
def OnlyLogs (P : LogEvent → Prop) (m : Command α) : Prop :=
  ∃ result events, (∀ w, exec m w = (result, { w with log := w.log ++ events })) ∧
    ∀ e ∈ events, P e

theorem OnlyLogs.pure (a : α) : OnlyLogs P (Pure.pure a : Command α) :=
  ⟨.ok a, [], fun w => by simp, by simp⟩

theorem OnlyLogs.orThrow (e : Except Error α) : OnlyLogs P (orThrow e) := by
  cases e with
  | error e => exact ⟨.error e, [], fun w => by simp [Repository.orThrow], by simp⟩
  | ok a => exact OnlyLogs.pure a

theorem OnlyLogs.logEvent {event : LogEvent} (h : P event) : OnlyLogs P (logEvent event) :=
  ⟨.ok ⟨⟩, [event], fun _ => rfl, by simpa using h⟩

theorem OnlyLogs.bind {m : Command α} {f : α → Command β} (first : OnlyLogs P m)
    (rest : ∀ a, OnlyLogs P (f a)) : OnlyLogs P (m >>= f) := by
  obtain ⟨result, events, run, kind⟩ := first
  cases result with
  | error e => exact ⟨.error e, events, fun w => exec_bind_of_error (run w), kind⟩
  | ok a =>
    obtain ⟨result', events', run', kind'⟩ := rest a
    refine ⟨result', events ++ events', fun w => ?_, ?_⟩
    · rw [exec_bind_of_ok (run w), run', List.append_assoc]
    · intro e he
      rcases List.mem_append.mp he with he | he
      · exact kind e he
      · exact kind' e he

theorem OnlyLogs.foldlM {step : β → α → Command β} (items : List α)
    (one : ∀ b, ∀ a ∈ items, OnlyLogs P (step b a)) (b : β) :
    OnlyLogs P (items.foldlM step b) := by
  induction items generalizing b with
  | nil => exact OnlyLogs.pure b
  | cons a rest ih =>
    rw [List.foldlM_cons]
    exact OnlyLogs.bind (one b a List.mem_cons_self)
      (fun b' => ih (fun c x hx => one c x (List.mem_cons_of_mem a hx)) b')

end OnlyLogs

/-- The entry of one path of one repository is the same before and after. -/
def SameNode (repoIdx : Nat) (p : List Str) (w w' : World) : Prop :=
  (w'.storage repoIdx).node p = (w.storage repoIdx).node p

theorem SameNode.refl (repoIdx : Nat) (p : List Str) (w : World) : SameNode repoIdx p w w :=
  rfl

theorem SameNode.trans (repoIdx : Nat) (p : List Str) (a b c : World)
    (first : SameNode repoIdx p a b) (rest : SameNode repoIdx p b c) : SameNode repoIdx p a c :=
  Eq.trans rest first

section Node
variable {p : List Str} {α β : Type}

theorem sameNode_logEvent (event : LogEvent) : Keeps (SameNode repoIdx p) (logEvent event) :=
  fun _ => rfl

theorem sameNode_pure (a : α) : Keeps (SameNode repoIdx p) (pure a : Command α) :=
  fun _ => rfl

theorem sameNode_orThrow (e : Except Error α) : Keeps (SameNode repoIdx p) (orThrow e) := by
  intro w
  cases e <;> rfl

theorem sameNode_storageWrite {idx : Nat} (keeps : ∀ t : Storage, (change t).node p = t.node p) :
    Keeps (SameNode repoIdx p) (storageWrite idx change) := by
  intro w
  change ((w.write idx change).storage repoIdx).node p = (w.storage repoIdx).node p
  by_cases h : repoIdx = idx
  · subst h
    rw [write_storage_self]
    split
    · exact keeps _
    · rfl
  · rw [write_storage_of_ne h]

theorem sameNode_bind {m : Command α} {f : α → Command β} (first : Keeps (SameNode repoIdx p) m)
    (rest : ∀ a, Keeps (SameNode repoIdx p) (f a)) : Keeps (SameNode repoIdx p) (m >>= f) :=
  Keeps.bind (SameNode.trans repoIdx p) first rest

theorem sameNode_foldlM {step : β → α → Command β} (items : List α)
    (one : ∀ b, ∀ a ∈ items, Keeps (SameNode repoIdx p) (step b a)) (b : β) :
    Keeps (SameNode repoIdx p) (items.foldlM step b) :=
  Keeps.foldlM (SameNode.refl repoIdx p) (SameNode.trans repoIdx p) items one b

end Node

end Command

end Repository
