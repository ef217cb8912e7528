import Backrest.RestoreCleanResult

/-!
# A restore and where it may stop

`cmdRestore` cleans and builds the data directory, saves the manifest there, has the
files restored by parallel jobs, writes the recovery settings and renames the control
file last. A step of a run is one of its changes to the file system. A run may stop
after any step, and in the middle of one that is not atomic.
-/

namespace RestoreRun

open Text BackupManifest FileTree TreeWalk Repository RestoreClean

section Code

structure RunOption extends RestoreOption where
  /-- The recovery type is none. -/
  recoveryNone : Bool
  /-- The recovery type is standby. -/
  standby : Bool

def pgFilePgControlTemp : Str := "pg_control.pgbackrest.tmp".toList
def backupManifestFile : Str := "backup.manifest".toList
def backupManifestTemp : Str := "backup.manifest.pgbackrest.tmp".toList

def controlName : List Str := [manifestTargetPgData, pgPathGlobal, pgFilePgControl]

/-- Where a file is restored, below the data directory. -/
def restoreFilePgPath (name : List Str) : List Str :=
  if name = controlName then [pgPathGlobal, pgFilePgControlTemp] else manifestPathPg name

variable (system : System)

def fileOpenError (place : List Str) : Error :=
  ⟨.fileOpenError, "unable to open file '".toList ++ pathText place ++ "' for write".toList⟩

def fileWrite (pgPath : List Str) (fs : FileSystem) (names : List Str) : Except Error FileSystem :=
  let place := follow system fs (resolve system fs pgPath names)
  match fs.node place with
  | none => if isDir fs place.dropLast then .ok (fs.put place .file) else .error (fileOpenError place)
  | some (.file .file) => .ok fs
  | some _ => .error (fileOpenError place)

def sourceMissingError (source : List Str) : Error :=
  ⟨.fileMissingError, "unable to move missing source '".toList ++ pathText source ++ ['\'']⟩

def fileMoveError (source destination : List Str) : Error :=
  ⟨.fileMoveError, "unable to move '".toList ++ pathText source ++ "' to '".toList ++
    pathText destination ++ ['\'']⟩

/-- `rename` takes what is at the source, and replaces what is at the destination. -/
def fileMove (fs : FileSystem) (source destination : List Str) : Except Error FileSystem :=
  match fs.node source, fs.node destination with
  | none, _ => .error (sourceMissingError source)
  | some .dir, _ => .error (fileMoveError source destination)
  | some (.file _), some .dir => .error (fileMoveError source destination)
  | some (.file kind), _ => .ok ((fs.remove source).put destination kind)

def fileRemoveError (place : List Str) : Error :=
  ⟨.fileRemoveError, "unable to remove '".toList ++ pathText place ++ ['\'']⟩

def fileRemove (fs : FileSystem) (place : List Str) : Except Error FileSystem :=
  match fs.node place with
  | some .dir => .error (fileRemoveError place)
  | _ => .ok (fs.remove place)

/-- The manifest is written under a temporary name that is then moved. -/
def manifestMove (pgPath : List Str) (fs : FileSystem) : Except Error FileSystem :=
  fileMove fs (resolve system fs pgPath [backupManifestTemp]) (resolve system fs pgPath [backupManifestFile])

/-- The files that the recovery settings are written to. -/
def recoveryFiles (option : RunOption) (manifest : Manifest) : List Str :=
  if option.preserve then []
  else if 120000 ≤ manifest.data.pgVersion then
    ["postgresql.auto.conf".toList,
      if option.standby then "standby.signal".toList else "recovery.signal".toList]
  else if option.recoveryNone then []
  else ["recovery.conf".toList]

/-- The control file comes last, so that an aborted restore cannot be started. -/
def controlRename (pgPath : List Str) (fs : FileSystem) : Except Error FileSystem :=
  let temp := resolve system fs pgPath [pgPathGlobal, pgFilePgControlTemp]
  if storageExists system fs temp then
    fileMove fs temp (resolve system fs pgPath [pgPathGlobal, pgFilePgControl])
  else .ok fs

end Code

section Run

/-- What a run does next. -/
inductive Phase where
  | start
  /-- All targets have passed the check. -/
  | checked (targets : List CleanData)
  | cleaning (targets : List CleanData)
  | paths (paths : List ManifestPath)
  | links (links : List ManifestLink)
  | saving
  | moving
  | restoring (queue running : List ManifestFile)
  | recovering (files : List Str)
  | removing
  | lastRename
  | done

structure RunState where
  fs : FileSystem
  phase : Phase := .start
  /-- The files of the backup that a job of this run has written. -/
  restored : List (List Str) := []
  /-- The run has ended here by an error or a crash. -/
  stopped : Bool := false

/-- In the middle of a change each entry is as before or as after it. -/
def Between (before after middle : FileSystem) : Prop :=
  ∀ q, middle.node q = before.node q ∨ middle.node q = after.node q

/-- How a change ends: it is made, or an error leaves a part of it. -/
def Ends (result : Except (Halt Failure) FileSystem) (fs : FileSystem) : Prop :=
  result = .ok fs ∨ ∃ e, result = .error (.error (e, fs))

variable (fuel : Nat) (system : System) (option : RunOption) (unchanged : FileSystem → ManifestFile → Bool)
  (manifest : Manifest)

def fileKept (fs : FileSystem) (file : ManifestFile) : Bool :=
  option.delta && unchanged fs file &&
    storageExists system fs
      (resolve system fs option.pgPath (restoreFilePgPath (parts file.name)))

inductive Step : RunState → RunState → Prop
  | check {fs targets} (passed : manifest.targetList.foldlM
      (targetStep fuel system option.toRestoreOption manifest fs) [] = .ok targets) :
      Step { fs := fs } { fs := fs, phase := .checked targets }
  | control {fs targets} :
      Step { fs := fs, phase := .checked targets }
        { fs := removeControl system option.toRestoreOption fs, phase := .cleaning targets }
  | clean {fs fs' target targets} (run : cleanTarget fuel option.toRestoreOption
      (skipFiles option.toRestoreOption manifest) fs target = .ok fs') :
      Step { fs := fs, phase := .cleaning (target :: targets) }
        { fs := fs', phase := .cleaning targets }
  | cleanPart {fs fs' middle target targets} (ends : Ends (cleanTarget fuel option.toRestoreOption
      (skipFiles option.toRestoreOption manifest) fs target) fs') (between : Between fs fs' middle) :
      Step { fs := fs, phase := .cleaning (target :: targets) }
        { fs := middle, phase := .cleaning (target :: targets), stopped := true }
  | cleaned {fs} :
      Step { fs := fs, phase := .cleaning [] } { fs := fs, phase := .paths manifest.pathList }
  | path {fs fs' path paths} (run : pathStep system option.toRestoreOption
      (skipFiles option.toRestoreOption manifest) fs path = .ok fs') :
      Step { fs := fs, phase := .paths (path :: paths) } { fs := fs', phase := .paths paths }
  | pathsMade {fs} :
      Step { fs := fs, phase := .paths [] } { fs := fs, phase := .links manifest.linkList }
  | link {fs fs' link links} (run : linkCreate system option.toRestoreOption fs link = .ok fs') :
      Step { fs := fs, phase := .links (link :: links) } { fs := fs', phase := .links links }
  | linksMade {fs} : Step { fs := fs, phase := .links [] } { fs := fs, phase := .saving }
  | save {fs fs'} (run : fileWrite system option.pgPath fs [backupManifestTemp] = .ok fs') :
      Step { fs := fs, phase := .saving } { fs := fs', phase := .moving }
  | move {fs fs'} (run : manifestMove system option.pgPath fs = .ok fs') :
      Step { fs := fs, phase := .moving }
        { fs := fs', phase := .restoring (skipFiles option.toRestoreOption manifest).fileList [] }
  | give {fs restored front file back running} :
      Step { fs := fs, phase := .restoring (front ++ file :: back) running, restored := restored }
        { fs := fs, phase := .restoring (front ++ back) (file :: running), restored := restored }
  | write {fs fs' queue running file restored} (runs : file ∈ running)
      (run : fileWrite system option.pgPath fs (restoreFilePgPath (parts file.name)) = .ok fs') :
      Step { fs := fs, phase := .restoring queue running, restored := restored }
        { fs := fs', phase := .restoring queue running, restored := parts file.name :: restored }
  | finish {fs queue front file back restored} (done : parts file.name ∈ restored ∨
      fileKept system option unchanged fs file = true) :
      Step { fs := fs, phase := .restoring queue (front ++ file :: back), restored := restored }
        { fs := fs, phase := .restoring queue (front ++ back), restored := restored }
  | restoredAll {fs restored} :
      Step { fs := fs, phase := .restoring [] [], restored := restored }
        { fs := fs, phase := .recovering (recoveryFiles option manifest), restored := restored }
  | recover {fs fs' file files restored} (run : fileWrite system option.pgPath fs [file] = .ok fs') :
      Step { fs := fs, phase := .recovering (file :: files), restored := restored }
        { fs := fs', phase := .recovering files, restored := restored }
  | recovered {fs restored} :
      Step { fs := fs, phase := .recovering [], restored := restored }
        { fs := fs, phase := .removing, restored := restored }
  | remove {fs fs' restored} (run : fileRemove fs
      (resolve system fs option.pgPath [backupManifestFile]) = .ok fs') :
      Step { fs := fs, phase := .removing, restored := restored }
        { fs := fs', phase := .lastRename, restored := restored }
  | rename {fs fs' restored} (run : controlRename system option.pgPath fs = .ok fs') :
      Step { fs := fs, phase := .lastRename, restored := restored }
        { fs := fs', phase := .done, restored := restored }
  | stop {fs phase restored} :
      Step { fs := fs, phase := phase, restored := restored }
        { fs := fs, phase := phase, restored := restored, stopped := true }

inductive Reachable (fs : FileSystem) : RunState → Prop
  | start : Reachable fs { fs := fs }
  | step {s t} (reach : Reachable fs s) (step : Step fuel system option unchanged manifest s t) :
      Reachable fs t

/-- Is there a control file in the data directory, maybe behind links? -/
def ControlExists (fs : FileSystem) : Prop :=
  storageExists system fs (resolve system fs option.pgPath [pgPathGlobal, pgFilePgControl]) = true

end Run

end RestoreRun
