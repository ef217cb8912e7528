import Backrest.Repository
import Backrest.TypeList

/-!
# Stanza create and stanza upgrade

Both commands write `archive.info` and `backup.info` of every repository, each with a
copy, so there are up to four writes in a repository and a command may be cut off after
any of them. What the next command finds is what was written so far.
-/

namespace Stanza

open Text BackupInfo Effects
open Repository (infoLoad)
open MemoryBlocks (Fault)
open TypeList (Failure lstInsertFirst)

def uintMax : Nat := 4294967295

inductive InfoPgType where
  | archive
  | backup
  deriving DecidableEq, Repr

/-- The sections `db` and `db:history` of an info file, the history as it stands in the file. -/
structure InfoFile where
  dbId : Nat
  dbHistory : List InfoPgData
  deriving DecidableEq

/-- What a control file says of the cluster. -/
structure PgControl where
  version : Nat
  systemId : Nat
  catalogVersion : Nat
  deriving DecidableEq

structure Repo where
  key : Nat
  /-- The full name of an info file. -/
  path : InfoPgType → Str
  info : InfoPgType → Option InfoFile
  copy : InfoPgType → Option InfoFile
  /-- Is there anything else in the archive or the backup directory? -/
  other : InfoPgType → Bool

/-! ## Info files -/

def check (condition : Bool) (text : Str) : Except Error Unit :=
  if condition then .ok ()
  else .error ⟨.assertError, "check '".toList ++ text ++ "' failed".toList⟩

def infoPgDataTotal (this : InfoPg) : Nat := this.history.length

def infoPgAdd (this : InfoPg) (pgData : InfoPgData) : Except Fault InfoPg := do
  let history ← lstInsertFirst this.history pgData
  pure ⟨history, 0⟩

/-- The id `infoPgSet` gives to new data. -/
def infoPgNextId (this : InfoPg) : Except Error Nat :=
  if infoPgDataTotal this > 0 then do
    let pgData ← infoPgDataCurrent this
    pure ((pgData.id + 1) % (uintMax + 1))
  else
    pure 1

def infoPgSet (this : InfoPg) (type : InfoPgType) (pgControl : PgControl) :
    Except Failure InfoPg := do
  let pgDataId ← (infoPgNextId this).mapError .thrown
  (infoPgAdd this
    { id := pgDataId
      version := pgControl.version
      systemId := pgControl.systemId
      catalogVersion := if type = .backup then pgControl.catalogVersion else 0 }).mapError .fault

/-- `infoArchiveNew` and `infoBackupNew`. -/
def infoNew (type : InfoPgType) (pgControl : PgControl) : Except Failure InfoPg :=
  infoPgSet ⟨[], 0⟩ type pgControl

def infoPgSave (this : InfoPg) : Except Error InfoFile := do
  let pgData ← infoPgDataCurrent this
  -- A list has no more than 2 ^ 31 items, so the index is negative as an `int` only at the end.
  pure ⟨pgData.id, this.history.reverse⟩

/-- The last index with the current id. -/
def historyIdx (currentId : Nat) : List InfoPgData → Nat → Option Nat → Option Nat
  | [], _, found => found
  | pgData :: rest, idx, found =>
    historyIdx currentId rest (idx + 1) (if pgData.id = currentId then some idx else found)

/-- The current entry of a history that was loaded. -/
def infoPgFind (currentId : Nat) (history : List InfoPgData) : Except Error InfoPg := do
  check (!history.isEmpty) "!lstEmpty(this->pub.history)".toList
  check (decide (currentId > 0)) "loadData.currentId > 0".toList
  match historyIdx currentId history 0 none with
  | none => .error ⟨.assertError, "check 'this->historyCurrent != UINT_MAX' failed".toList⟩
  | some historyCurrent => pure ⟨history, historyCurrent⟩

def infoPgNewLoad (file : InfoFile) : Except Fault (Except Error InfoPg) := do
  -- Insert at beginning of list so the history is reverse ordered
  let history ← file.dbHistory.foldlM lstInsertFirst []
  pure (infoPgFind file.dbId history)

def infoCopyExt : Str := ".copy".toList

def loadTry (path : Str) : Option InfoFile → Except Fault (Except Error InfoPg)
  | none => .ok (.error ⟨.fileMissingError,
      "unable to open missing file '".toList ++ path ++ "' for read".toList⟩)
  | some file => infoPgNewLoad file

def loadHint : InfoPgType → Str
  | .archive =>
    ("\nHINT: archive.info cannot be opened but is required to push/get WAL segments." ++
      "\nHINT: is archive_command configured correctly in postgresql.conf?" ++
      "\nHINT: has a stanza-create been performed?" ++
      "\nHINT: use --no-archive-check to disable archive checks during backup if you have an " ++
      "alternate archiving scheme.").toList
  | .backup =>
    ("\nHINT: backup.info cannot be opened and is required to perform a backup." ++
      "\nHINT: has a stanza-create been performed?").toList

/-- `infoArchiveLoadFile` and `infoBackupLoadFile`. What is caught is an error, not a fault. -/
def infoLoadFile (repo : Repo) (type : InfoPgType) : Except Failure InfoPg := do
  let path := repo.path type
  let main ← (loadTry path (repo.info type)).mapError .fault
  let copy ←
    if main.isOk then pure main
    else (loadTry (path ++ infoCopyExt) (repo.copy type)).mapError .fault
  match infoLoad ("unable to load info file '".toList ++ path ++ "' or '".toList ++ path ++
      infoCopyExt ++ "'".toList) main copy with
  | .ok infoPg => pure infoPg
  | .error e => .error (.thrown ⟨e.type, e.message ++ loadHint type⟩)

/-! ## Writes -/

/-- How a command ends early. A fault is an access outside of a block of memory. -/
inductive Stop where
  | threw (error : Error)
  | fault (fault : Fault)
  | cutOff

/-- A command at work in a repository, with the number of writes that come before the one it
is cut off after. -/
structure Work where
  repo : Repo
  cut : Option Nat

abbrev StanzaM := Effect Stop Work

inductive FileKind where
  | info
  | copy
  deriving DecidableEq, Repr

def Repo.write (repo : Repo) (type : InfoPgType) (kind : FileKind) (file : InfoFile) : Repo :=
  match kind with
  | .info => { repo with info := fun t => if t = type then some file else repo.info t }
  | .copy => { repo with copy := fun t => if t = type then some file else repo.copy t }

def Work.write (work : Work) (type : InfoPgType) (kind : FileKind) (file : InfoFile) : Work where
  repo := work.repo.write type kind file
  cut := work.cut.map (· - 1)

/-- `storagePutP`: the file is whole or not there. -/
def storagePut (type : InfoPgType) (kind : FileKind) (file : InfoFile) : StanzaM Unit := do
  let before ← get
  modify (fun work => work.write type kind file)
  if before.cut = some 0 then throw .cutOff else pure ()

def orThrow {α : Type} : Except Error α → StanzaM α
  | .ok a => pure a
  | .error e => throw (.threw e)

def orStop {α : Type} : Except Failure α → StanzaM α
  | .ok a => pure a
  | .error (.thrown e) => throw (.threw e)
  | .error (.fault fault) => throw (.fault fault)

/-- `infoArchiveSaveFile` and `infoBackupSaveFile`. -/
def infoSaveFile (type : InfoPgType) (infoPg : InfoPg) : StanzaM Unit := do
  let file ← orThrow (infoPgSave infoPg)
  storagePut type .info file
  storagePut type .copy file

/-! ## Checks -/

def pgDataText (pgData : InfoPgData) : Str :=
  "id = ".toList ++ fmtUInt pgData.id ++ ", version = ".toList ++ pgVersionToStr pgData.version ++
    ", system-id = ".toList ++ fmtUInt pgData.systemId

def checkStanzaInfo (archiveInfo backupInfo : InfoPgData) : Except Error Unit :=
  if archiveInfo.id ≠ backupInfo.id ∨ archiveInfo.systemId ≠ backupInfo.systemId ∨
      archiveInfo.version ≠ backupInfo.version then
    .error ⟨.fileInvalidError,
      "backup info file and archive info file do not match\narchive: ".toList ++
        pgDataText archiveInfo ++ "\nbackup : ".toList ++ pgDataText backupInfo ++
        "\nHINT: this may be a symptom of repository corruption!".toList⟩
  else
    .ok ()

def differs (pgControl : PgControl) (pgData : InfoPgData) : Bool :=
  pgControl.version ≠ pgData.version ∨ pgControl.systemId ≠ pgData.systemId

def checkStanzaInfoPg (repo : Repo) (pgControl : PgControl) : Except Failure Unit := do
  let infoArchive ← infoLoadFile repo .archive
  let archiveInfo ← (infoPgDataCurrent infoArchive).mapError .thrown
  let infoBackup ← infoLoadFile repo .backup
  let backupInfo ← (infoPgDataCurrent infoBackup).mapError .thrown
  (checkStanzaInfo archiveInfo backupInfo).mapError .thrown
  if differs pgControl archiveInfo then
    .error (.thrown ⟨.fileInvalidError,
      ("backup and archive info files exist but do not match the database\n" ++
        "HINT: is this the correct stanza?\n" ++
        "HINT: did an error occur during stanza-upgrade?").toList⟩)
  else
    .ok ()

/-! ## Commands -/

def infoExists (repo : Repo) (type : InfoPgType) : Bool :=
  (repo.info type).isSome || (repo.copy type).isSome

/-- The names of `storageListP` would include the info files, which are not there when this
is asked. -/
def notEmptyError (archiveNotEmpty backupNotEmpty : Bool) : Error :=
  ⟨.pathNotEmptyError,
    (if backupNotEmpty then "backup directory ".toList else []) ++
    (if backupNotEmpty && archiveNotEmpty then "and/or ".toList else []) ++
    (if archiveNotEmpty then "archive directory ".toList else []) ++ "not empty".toList⟩

def infoMissingError (repo : Repo) : Error :=
  ⟨.fileMissingError,
    (if infoExists repo .archive then "archive.info exists but backup.info is missing".toList
      else "backup.info exists but archive.info is missing".toList) ++
    " on repo".toList ++ fmtUInt repo.key ++
    "\nHINT: this may be a symptom of repository corruption!".toList⟩

/-- The files are written for the first time. -/
def stanzaNew (repo : Repo) (pgControl : PgControl) : StanzaM Unit := do
  if repo.other .archive || repo.other .backup then
    throw (.threw (notEmptyError (repo.other .archive) (repo.other .backup)))
  else
    let infoArchive ← orStop (infoNew .archive pgControl)
    infoSaveFile .archive infoArchive
    let infoBackup ← orStop (infoNew .backup pgControl)
    infoSaveFile .backup infoBackup

def copyMissing (repo : Repo) (type : InfoPgType) : StanzaM Unit :=
  match repo.info type, repo.copy type with
  | some file, none => storagePut type .copy file
  | none, some file => storagePut type .info file
  | _, _ => pure ()

/-- What `cmdStanzaCreate` does for one repository. -/
def stanzaCreate (pgControl : PgControl) : StanzaM Unit := do
  let repo := (← get).repo
  if !infoExists repo .archive && !infoExists repo .backup then
    stanzaNew repo pgControl
  else if infoExists repo .archive && infoExists repo .backup then
    orStop (checkStanzaInfoPg repo pgControl)
    copyMissing repo .archive
    copyMissing repo .backup
  else
    throw (.threw (infoMissingError repo))

def infoUpgrade (repo : Repo) (type : InfoPgType) (pgControl : PgControl) :
    Except Failure (InfoPg × Bool) := do
  let infoPg ← infoLoadFile repo type
  let pgData ← (infoPgDataCurrent infoPg).mapError .thrown
  if differs pgControl pgData then
    let upgraded ← infoPgSet infoPg type pgControl
    pure (upgraded, true)
  else
    pure (infoPg, false)

/-- What `cmdStanzaUpgrade` does for one repository. -/
def stanzaUpgrade (pgControl : PgControl) : StanzaM Unit := do
  let repo := (← get).repo
  let (infoArchive, infoArchiveUpgrade) ← orStop (infoUpgrade repo .archive pgControl)
  let (infoBackup, infoBackupUpgrade) ← orStop (infoUpgrade repo .backup pgControl)
  -- The check comes before the first write, even when only one file is to be saved.
  let backupInfo ← orThrow (infoPgDataCurrent infoBackup)
  let archiveInfo ← orThrow (infoPgDataCurrent infoArchive)
  orThrow (checkStanzaInfo archiveInfo backupInfo)
  if infoArchiveUpgrade then infoSaveFile .archive infoArchive else pure ()
  if infoBackupUpgrade then infoSaveFile .backup infoBackup else pure ()

inductive CommandType where
  | stanzaCreate
  | stanzaUpgrade
  deriving DecidableEq, Repr

/-- A command, with what `lockStopTest` and `pgValidate` give it. -/
structure Command where
  type : CommandType
  pgControl : Except Error PgControl
  cut : Option Nat

/-- One round of a command's loop. -/
def stanzaRepo : CommandType → PgControl → StanzaM Unit
  | .stanzaCreate => stanzaCreate
  | .stanzaUpgrade => stanzaUpgrade

/-- The loop over the configured repositories, which ends at the first error. -/
def repoLoop (m : StanzaM Unit) : List Repo → Option Nat → Except Stop Unit × List Repo
  | [], _ => (.ok (), [])
  | repo :: rest, cut =>
    match exec m ⟨repo, cut⟩ with
    | (.error e, work) => (.error e, work.repo :: rest)
    | (.ok _, work) =>
      let (result, rest') := repoLoop m rest work.cut
      (result, work.repo :: rest')

/-- `cmdStanzaCreate` and `cmdStanzaUpgrade`. -/
def cmdStanza (command : Command) (repos : List Repo) : Except Stop Unit × List Repo :=
  match command.pgControl with
  | .error e => (.error (.threw e), repos)
  | .ok pgControl => repoLoop (stanzaRepo command.type pgControl) repos command.cut

def run (commands : List Command) (repos : List Repo) : List Repo :=
  commands.foldl (fun repos command => (cmdStanza command repos).2) repos

end Stanza
