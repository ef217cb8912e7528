import Backrest.TreeWalk
import Backrest.BackupInfo
import Backrest.BackupManifest
import Backrest.BackupQueue
import Backrest.Repository

/-!
# Cleaning before a restore

A restore first checks its target directories, then cleans out of them what the
backup does not have, and then makes the paths and links that are missing. Names
and paths are given by their parts, and names of the manifest are compared part
by part.
-/

namespace RestoreClean

open Text BackupCommon BackupInfo BackupManifest FileTree Repository TreeWalk

/-- What stands at a path that is not a directory. -/
inductive Kind where
  | file
  | link (destination : Str)
  | special
  deriving DecidableEq

abbrev FileSystem := Tree Str Kind

/-- What the operating system and the configuration say of paths: the absolute path of a
target, where a link in a directory leads, and the check that a path belongs to the user
and has all permissions. Target paths are real paths that do not pass through links. -/
structure System where
  targetPath : ManifestTarget → List Str
  leadsTo : List Str → Str → List Str
  pathCheck : List Str → Option Error

structure RestoreOption where
  delta : Bool
  force : Bool
  /-- The recovery type is preserve. -/
  preserve : Bool
  pgPath : List Str

def parts (name : Str) : List Str := strLstNewSplit '/' name

def manifestTargetPgData : Str := "pg_data".toList
def manifestTargetPgTblSpc : Str := "pg_tblspc".toList
def pgPathGlobal : Str := "global".toList
def pgFilePgControl : Str := "pg_control".toList

def manifestPathFindDefault (this : Manifest) (name : List Str) : Option ManifestPath :=
  this.pathList.find? (fun path => parts path.name = name)

def manifestLinkFindDefault (this : Manifest) (name : List Str) : Option ManifestLink :=
  this.linkList.find? (fun link => parts link.name = name)

def fileFindDefault (this : Manifest) (name : List Str) : Option ManifestFile :=
  this.fileList.find? (fun file => parts file.name = name)

/-- The path below the data directory that a name of the manifest stands for. -/
def manifestPathPg (name : List Str) : List Str :=
  match name with
  | first :: rest => if first = manifestTargetPgData then rest else name
  | [] => []

/-! ## Paths with links -/

section Paths
variable (system : System) (fs : FileSystem)

/-- Go where a link leads. -/
def follow (place : List Str) : List Str :=
  match fs.node place with
  | some (.file (.link destination)) => system.leadsTo place.dropLast destination
  | _ => place

/-- Go through directories and links. -/
def through (place : List Str) (names : List Str) : List Str :=
  names.foldl (fun place name => follow system fs (place ++ [name])) place

/-- The place a path stands for. A link at its end is not followed. -/
def resolve (place : List Str) (names : List Str) : List Str :=
  match names.getLast? with
  | none => place
  | some last => through system fs place names.dropLast ++ [last]

/-- `storageExists`: is there a regular file, maybe behind a link? -/
def storageExists (place : List Str) : Bool :=
  match fs.node (follow system fs place) with
  | some (.file .file) => true
  | _ => false

end Paths

/-- Can something be created in this directory? The root is always there. -/
def isDir (fs : FileSystem) (place : List Str) : Bool :=
  match place, fs.node place with
  | [], _ => true
  | _, some .dir => true
  | _, _ => false

abbrev Failure := Error × FileSystem

def pathCreateError (path : List Str) : Error :=
  ⟨.pathCreateError, "unable to create path '".toList ++ pathText path ++ ['\'']⟩

/-- One step of `storagePathCreate` with parents. What is there already is left, but only a
directory can have something below it. -/
def pathCreateStep (path : List Str) (fs : FileSystem) (above : List Str) :
    Except (Halt Failure) FileSystem :=
  match fs.node above with
  | none => .ok (fs.mkdir above)
  | some .dir => .ok fs
  | some (.file _) => if above = path then .ok fs else .error (.error (pathCreateError path, fs))

def storagePathCreate (path : List Str) (fs : FileSystem) : Except (Halt Failure) FileSystem :=
  path.inits.tail.foldlM (pathCreateStep path) fs

/-! ## Step 1: check the targets -/

structure CleanData where
  name : List Str
  targetName : List Str
  targetPath : List Str
  basePath : Bool
  file : Option Str
  isThere : Bool

def fileIgnore (option : RestoreOption) (manifest : Manifest) : List Str :=
  "backup.manifest".toList ::
    if option.preserve then
      if 120000 ≤ manifest.data.pgVersion then
        ["postgresql.auto.conf".toList, "recovery.signal".toList, "standby.signal".toList]
      else ["recovery.conf".toList]
    else []

def pgTablespaceId (pgVersion pgCatalogVersion : Nat) : Option Str :=
  if 90000 ≤ pgVersion then
    some ("PG_".toList ++ pgVersionToStr pgVersion ++ '_' :: fmtUInt pgCatalogVersion)
  else none

/-- The tablespace identifier is appended to the path of a tablespace. -/
def targetExtra (manifest : Manifest) (target : ManifestTarget) : List Str :=
  if target.type = .link ∧ target.tablespaceId ≠ 0 then
    (pgTablespaceId manifest.data.pgVersion manifest.data.pgCatalogVersion).toList
  else []

def cleanDataNew (system : System) (manifest : Manifest) (target : ManifestTarget) : CleanData where
  name := parts target.name
  targetName := parts target.name ++ targetExtra manifest target
  targetPath := system.targetPath target ++ targetExtra manifest target
  basePath := parts target.name = [manifestTargetPgData]
  file := target.file
  isThere := false

def pathNotEmptyError (path : List Str) : Error :=
  ⟨.pathNotEmptyError, "unable to restore to path '".toList ++ pathText path ++
    "' because it contains files\n".toList ++
    "HINT: try using --delta if this is what you intended.".toList⟩

def fileExistsError (path : List Str) : Error :=
  ⟨.fileExistsError, "unable to restore file '".toList ++ pathText path ++
    "' because it already exists\n".toList ++
    "HINT: try using --delta if this is what you intended.".toList⟩

def ignored (ignore : List Str) (cleanData : CleanData) (rest : List Str) (node : Node Kind) :
    Bool :=
  match node, rest with
  | .file .file, [name] => cleanData.basePath && name ∈ ignore
  | _, _ => false

def isNamed (manifest : Manifest) (name : List Str) : Node Kind → Bool
  | .file .file => (fileFindDefault manifest name).isSome
  | .file (.link destination) =>
    match manifestLinkFindDefault manifest name with
    | some link => link.destination = some destination
    | none => false
  | .file .special => false
  | .dir => (manifestPathFindDefault manifest name).isSome

/-- Clean one path, or refuse it when the directory must be empty. A link whose destination
changed is removed. The entry of the directory itself is skipped and not listed here. -/
def restoreCleanInfoListCallback (manifest : Manifest) (ignore : List Str) (delta : Bool)
    (cleanData : CleanData) : Visit Str Kind Unit Failure := fun path node s =>
  let rest := path.drop cleanData.targetPath.length
  if ignored ignore cleanData rest node then .ok (s, false)
  else if delta = false then .error (pathNotEmptyError cleanData.targetPath, s.1)
  else if isNamed manifest (cleanData.targetName ++ rest) node then
    match node with
    | .dir => .ok (s, true)
    | .file _ => .ok (s, false)
  else
    match node with
    | .dir => .ok ((s.1.removeTree path, s.2), false)
    | .file _ => .ok ((s.1.remove path, s.2), false)

/-- `storageInfoList` with the callback. Only a directory can be listed. -/
def infoList (fuel : Nat) (order : List Str → List Str) (manifest : Manifest) (ignore : List Str)
    (delta : Bool) (cleanData : CleanData) (fs : FileSystem) :
    Except (Halt Failure) FileSystem :=
  match fs.node cleanData.targetPath with
  | none => .error (.error (⟨.pathMissingError, "unable to list file info for missing path '".toList ++
      pathText cleanData.targetPath ++ ['\'']⟩, fs))
  | some (.file _) => .error (.error (⟨.pathOpenError, "unable to list file info for path '".toList ++
      pathText cleanData.targetPath ++ ['\'']⟩, fs))
  | some .dir =>
    match walk order (restoreCleanInfoListCallback manifest ignore delta cleanData) fuel
        cleanData.targetPath (fs, ()) with
    | .error e => .error e
    | .ok s => .ok s.1

def targetCheck (fuel : Nat) (system : System) (option : RestoreOption) (manifest : Manifest)
    (fs : FileSystem) (cleanData : CleanData) : Except (Halt Failure) Unit :=
  match system.pathCheck cleanData.targetPath with
  | some e => .error (.error (e, fs))
  | none =>
    if option.delta || option.force then .ok ()
    else
      match cleanData.file with
      | none =>
        match infoList fuel id manifest (fileIgnore option manifest) false cleanData fs with
        | .error e => .error e
        | .ok _ => .ok ()
      | some file =>
        if storageExists system fs (cleanData.targetPath ++ [file]) then
          .error (.error (fileExistsError (cleanData.targetPath ++ [file]), fs))
        else .ok ()

def targetStep (fuel : Nat) (system : System) (option : RestoreOption) (manifest : Manifest)
    (fs : FileSystem) (cleanDataList : List CleanData) (target : ManifestTarget) :
    Except (Halt Failure) (List CleanData) :=
  let cleanData := cleanDataNew system manifest target
  if (fs.node cleanData.targetPath).isSome then
    match targetCheck fuel system option manifest fs cleanData with
    | .error e => .error e
    | .ok () => .ok (cleanDataList ++ [{ cleanData with isThere := true }])
  else .ok (cleanDataList ++ [cleanData])

/-! ## Step 2: clean the targets -/

def pgFileTablespaceMap : List Str := [manifestTargetPgData, "tablespace_map".toList]
def pgFilePostgresqlAutoConf : List Str := [manifestTargetPgData, "postgresql.auto.conf".toList]

def fileRemove (this : Manifest) (name : List Str) : Manifest :=
  { this with fileList := this.fileList.eraseP (fun file => parts file.name = name) }

def skipFiles (option : RestoreOption) (manifest : Manifest) : Manifest :=
  let manifest :=
    if (fileFindDefault manifest pgFileTablespaceMap).isSome ∧ 90500 ≤ manifest.data.pgVersion then
      fileRemove manifest pgFileTablespaceMap
    else manifest
  if 120000 ≤ manifest.data.pgVersion ∧ option.preserve = true ∧
      (fileFindDefault manifest pgFilePostgresqlAutoConf).isSome then
    fileRemove manifest pgFilePostgresqlAutoConf
  else manifest

/-- Remove the control file so that the cluster cannot be started. -/
def removeControl (system : System) (option : RestoreOption) (fs : FileSystem) : FileSystem :=
  let place := resolve system fs option.pgPath [pgPathGlobal, pgFilePgControl]
  if storageExists system fs place then fs.remove place else fs

def pathFindError (name : List Str) : Error :=
  ⟨.assertError, "unable to find '".toList ++ pathText name ++ "' in manifest path list".toList⟩

def cleanTarget (fuel : Nat) (option : RestoreOption) (manifest : Manifest) (fs : FileSystem)
    (cleanData : CleanData) : Except (Halt Failure) FileSystem :=
  if cleanData.isThere then
    match cleanData.file with
    | some _ => .ok fs
    | none =>
      match manifestPathFindDefault manifest cleanData.targetName with
      | none => .error (.error (pathFindError cleanData.targetName, fs))
      | some _ => infoList fuel (fun names => strLstSort names .asc) manifest
          (fileIgnore option manifest) true cleanData fs
  else
    let name := if cleanData.file.isSome then [manifestTargetPgData] else cleanData.name
    match manifestPathFindDefault manifest name with
    | none => .error (.error (pathFindError name, fs))
    | some _ => storagePathCreate cleanData.targetPath fs

/-! ## Steps 3 and 4: create paths and links -/

def linkCreate (system : System) (option : RestoreOption) (fs : FileSystem) (link : ManifestLink) :
    Except (Halt Failure) FileSystem :=
  let pgPath := resolve system fs option.pgPath (manifestPathPg (parts link.name))
  if (fs.node pgPath).isSome then .ok fs
  else if isDir fs pgPath.dropLast then .ok (fs.put pgPath (.link (link.destination.getD [])))
  else .error (.error (⟨.fileOpenError, "unable to create symlink '".toList ++ pathText pgPath ++
    "' to '".toList ++ link.destination.getD [] ++ ['\'']⟩, fs))

def pathStep (system : System) (option : RestoreOption) (manifest : Manifest) (fs : FileSystem)
    (path : ManifestPath) : Except (Halt Failure) FileSystem :=
  let name := parts path.name
  if name = [manifestTargetPgTblSpc] then .ok fs
  else
    let linkName :=
      if strBeginsWith path.name manifestTargetPgTblSpc then manifestTargetPgData :: name else name
    match manifestLinkFindDefault manifest linkName with
    | some link => linkCreate system option fs link
    | none =>
      let pgPath := resolve system fs option.pgPath (manifestPathPg name)
      if (fs.node pgPath).isSome then .ok fs
      else if isDir fs pgPath.dropLast then .ok (fs.mkdir pgPath)
      else .error (.error (pathCreateError pgPath, fs))

/-- Clean the targets and make what is missing. -/
def restoreCleanBuild (fuel : Nat) (system : System) (option : RestoreOption) (manifest : Manifest)
    (fs : FileSystem) : Except (Halt Failure) (Manifest × FileSystem) :=
  match manifest.targetList.foldlM (targetStep fuel system option manifest fs) [] with
  | .error e => .error e
  | .ok cleanDataList =>
    let manifest := skipFiles option manifest
    match cleanDataList.foldlM (cleanTarget fuel option manifest) (removeControl system option fs) with
    | .error e => .error e
    | .ok fs =>
      match manifest.pathList.foldlM (pathStep system option manifest) fs with
      | .error e => .error e
      | .ok fs =>
        match manifest.linkList.foldlM (linkCreate system option) fs with
        | .error e => .error e
        | .ok fs => .ok (manifest, fs)

end RestoreClean
