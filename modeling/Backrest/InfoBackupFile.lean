import Backrest.BackupInfo
import Backrest.InfoFile
import Backrest.StringId

/-!
# The file backup.info

The history of PostgreSQL versions is written oldest first and put together again from the
front. The current entry is written by its id in a section of its own. The backups are written
between these sections, by a callback that asks which section comes next.
-/

namespace InfoBackupFile

open Text FuelLoop StreamFilter FilterGroup ReadStream IniLoad Json BackupCommon BackupInfo InfoFile

section Versions

/-- The supported versions with their control versions. -/
def pgInterface : List (Nat × UInt32) :=
  [(140000, 1300), (130000, 1300), (120000, 1201), (110000, 1100), (100000, 1002), (90600, 960),
    (90500, 942), (90400, 942), (90300, 937), (90200, 922), (90100, 903), (90000, 903), (80400, 843),
    (80300, 833)]

def pgControlVersion (pgVersion : Nat) : Except Error UInt32 :=
  match pgInterface.lookup pgVersion with
  | some controlVersion => .ok controlVersion
  | none => .error ⟨.assertError, "invalid PostgreSQL version ".toList ++ fmtUInt pgVersion⟩

/-- `cvtZToUInt`: decimal digits, with a plus sign or without. -/
def cvtZToUInt (value : Str) : Except Error Nat :=
  let digits := match value with
    | '+' :: rest => rest
    | rest => rest
  if digits ≠ [] ∧ digits.all Char.isDigit = true ∧ cvtDigits digits < 2 ^ 32 then
    .ok (cvtDigits digits)
  else .error ⟨.formatError,
    "unable to convert base 10 string '".toList ++ value ++ "' to unsigned int".toList⟩

/-- `^[0-9]+[.]*[0-9]+$` -/
def isVersionFormat (version : Str) : Bool :=
  let dots := version.dropWhile Char.isDigit
  let minor := dots.dropWhile (· = '.')
  if dots = [] then decide (2 ≤ version.length)
  else version.head? ≠ some '.' && dots.head? = some '.' && minor ≠ [] && minor.all Char.isDigit

def pgVersionFromStr (version : Str) : Except Error Nat :=
  -- If format is not number.number (9.4) or number only (10) then error
  if isVersionFormat version then
    -- If there is a dot set the major and minor versions, else just the major
    if '.' ∈ version then do
      let idxStart := version.idxOf '.'
      let major ← cvtZToUInt (version.take idxStart)
      let minor ← cvtZToUInt (version.drop (idxStart + 1))
      .ok ((major * 10000 + minor * 100) % 2 ^ 32)
    else do
      let major ← cvtZToUInt version
      .ok (major * 10000 % 2 ^ 32)
  else .error ⟨.assertError, "version ".toList ++ version ++ " format is invalid".toList⟩

end Versions

section Variants

def variantTypeName : Variant → Str
  | .null => []
  | .scalar (.bool _) => "bool".toList
  | .scalar (.int _) => "int".toList
  | .scalar (.int64 _) => "int64".toList
  | .kv _ => "KeyValue".toList
  | .string _ => "String".toList
  | .scalar (.uint _) => "unsigned int".toList
  | .scalar (.uint64 _) => "uint64".toList
  | .list _ => "VariantList".toList

def forceError (type : ErrorType) (this : Variant) (name : String) : Error :=
  ⟨type, "unable to force ".toList ++ variantTypeName this ++ " to ".toList ++ name.toList⟩

def convertError (this : Variant) (number : Int) (name : String) : Error :=
  ⟨.formatError, "unable to convert ".toList ++ variantTypeName this ++ ' ' :: fmtInt number ++
    " to ".toList ++ name.toList⟩

/-- `varUIntForce` and `varUInt64Force`: an integer that is not negative and is below the bound of
the type. -/
def varForce (bound : Nat) (name : String) (cvt : Str → Except Error Nat) (this : Variant) :
    Except Error Nat :=
  match this with
  | .null => .error (assertion "this != NULL")
  | .string data => cvt data
  | .list _ => .error (forceError .assertError this name)
  | .kv _ => .error (forceError .assertError this name)
  | .scalar (.bool data) => .ok data.toNat
  | .scalar data =>
    let resultTest := data.integer.getD 0
    if 0 ≤ resultTest ∧ resultTest < bound then .ok resultTest.toNat
    else .error (convertError this resultTest name)

def varUIntForce (this : Variant) : Except Error Nat := varForce (2 ^ 32) "unsigned int" cvtZToUInt this

def varUInt64Force (this : Variant) : Except Error Nat :=
  varForce (2 ^ 64) "uint64" Convert.cvtZToUInt64 this

def varStrForce (this : Variant) : Except Error Str :=
  match this with
  | .null => .error (assertion "this != NULL")
  | .string data => .ok data
  | .scalar value => .ok (Json.varStrForce value)
  | .list _ => .error (forceError .formatError this "String")
  | .kv _ => .error (forceError .formatError this "String")

def varBool : Variant → Except Error Bool
  | .null => .error (assertion "this != NULL")
  | .scalar (.bool data) => .ok data
  | _ => .error (assertion "varType(this) == varTypeBool")

/-- `varKv`. What it gives for null, the next `kvGet` does not take. -/
def varKv : Variant → Except Error (List (Str × Variant))
  | .null => .error (assertion "this != NULL")
  | .kv data => .ok data
  | _ => .error (assertion "varType(this) == varTypeKeyValue")

def kvGet (this : List (Str × Variant)) (key : Str) : Variant := (this.lookup key).getD .null

/-- `strLstNewVarLst` on `varVarLst`, where the variant is not null. -/
def strLstNewVarLst : Variant → Except Error (List Str)
  | .list data => data.mapM fun item => (varStr item).bind fun string =>
      match string with
      | some string => .ok string
      | none => .error (assertion "string != NULL")
  | _ => .error (assertion "varType(this) == varTypeVariantList")

end Variants

section Save

def infoSectionDb : Str := "db".toList

def infoSectionDbHistory : Str := "db:history".toList

def infoBackupSectionBackupCurrent : Str := "backup:current".toList

def infoKeyDbId : Str := "db-id".toList

def infoKeyDbCatalogVersion : Str := "db-catalog-version".toList

def infoKeyDbControlVersion : Str := "db-control-version".toList

def infoKeyDbSystemId : Str := "db-system-id".toList

def infoKeyDbVersion : Str := "db-version".toList

def infoBackupKeyBackupArchiveStart : Str := "backup-archive-start".toList

def infoBackupKeyBackupArchiveStop : Str := "backup-archive-stop".toList

def infoBackupKeyBackupInfoRepoSize : Str := "backup-info-repo-size".toList

def infoBackupKeyBackupInfoRepoSizeDelta : Str := "backup-info-repo-size-delta".toList

def infoBackupKeyBackupInfoSize : Str := "backup-info-size".toList

def infoBackupKeyBackupInfoSizeDelta : Str := "backup-info-size-delta".toList

def infoBackupKeyBackupPrior : Str := "backup-prior".toList

def infoBackupKeyBackupReference : Str := "backup-reference".toList

def infoBackupKeyBackupTimestampStart : Str := "backup-timestamp-start".toList

def infoBackupKeyBackupTimestampStop : Str := "backup-timestamp-stop".toList

def infoBackupKeyBackupType : Str := "backup-type".toList

def infoBackupKeyOptArchiveCheck : Str := "option-archive-check".toList

def infoBackupKeyOptArchiveCopy : Str := "option-archive-copy".toList

def infoBackupKeyOptBackupStandby : Str := "option-backup-standby".toList

def infoBackupKeyOptChecksumPage : Str := "option-checksum-page".toList

def infoBackupKeyOptCompress : Str := "option-compress".toList

def infoBackupKeyOptHardlink : Str := "option-hardlink".toList

def infoBackupKeyOptOnline : Str := "option-online".toList

inductive InfoPgType where
  | archive
  | backup
  deriving DecidableEq

/-- The section comes behind the last one saved and before the next. -/
def infoSaveSection (infoSaveData : InfoSave) (currentSection : Str) (sectionNext : Option Str) :
    Bool :=
  infoSaveData.sectionLast.all (fun sectionLast => decide (sectionLast < currentSection)) &&
    sectionNext.all fun sectionNext => decide (currentSection < sectionNext)

def uint (value : Nat) : Variant := .scalar (.uint (UInt32.ofNat value))

def uint64 (value : Nat) : Variant := .scalar (.uint64 (UInt64.ofNat value))

/-- When storing time_t treat as signed int to avoid casting -/
def int64 (value : Int) : Variant := .scalar (.int64 (Int64.ofInt value))

def strVar : Option Str → Variant
  | none => .null
  | some data => .string data

def bool (value : Bool) : Variant := .scalar (.bool value)

/-- One entry of the history. -/
def pgDataKv (type : InfoPgType) (pgData : InfoPgData) : Except Error (List (Str × Variant)) :=
  match type with
  | .backup => do
    let controlVersion ← pgControlVersion pgData.version
    .ok [(infoKeyDbVersion, .string (pgVersionToStr pgData.version)),
      (infoKeyDbSystemId, uint64 pgData.systemId),
      -- These need to be saved because older pgBackRest versions expect them
      (infoKeyDbCatalogVersion, uint pgData.catalogVersion),
      (infoKeyDbControlVersion, .scalar (.uint controlVersion))]
  | .archive =>
    .ok [(infoKeyDbVersion, .string (pgVersionToStr pgData.version)),
      (infoKeyDbId, uint64 pgData.systemId)]

def infoPgSaveCallback (type : InfoPgType) (infoPg : InfoPg)
    (callbackFunction : Option Str → InfoSave → InfoSave) (sectionNext : Option Str)
    (infoSaveData : InfoSave) : Except Error InfoSave := do
  let data ←
    if infoSaveSection infoSaveData infoSectionDb sectionNext then do
      let data := callbackFunction (some infoSectionDb) infoSaveData
      let pgData ← infoPgDataCurrent infoPg
      -- These need to be saved because older pgBackRest versions expect them
      let data ← match type with
        | .backup => do
          let data := infoSaveValue data infoSectionDb infoKeyDbCatalogVersion
            (jsonFromUInt (UInt32.ofNat pgData.catalogVersion))
          let controlVersion ← pgControlVersion pgData.version
          .ok (infoSaveValue data infoSectionDb infoKeyDbControlVersion (jsonFromUInt controlVersion))
        | .archive => .ok data
      let data := infoSaveValue data infoSectionDb infoKeyDbId (jsonFromUInt (UInt32.ofNat pgData.id))
      let data := infoSaveValue data infoSectionDb infoKeyDbSystemId
        (jsonFromUInt64 (UInt64.ofNat pgData.systemId))
      .ok (infoSaveValue data infoSectionDb infoKeyDbVersion
        (jsonFromStrInternal (pgVersionToStr pgData.version)))
    else .ok infoSaveData
  let data ←
    if infoSaveSection data infoSectionDbHistory sectionNext then
      -- Set the db history section in reverse so oldest history is first instead of last to be
      -- consistent with load. A list has no more than 2 ^ 31 items, so the index is negative as an
      -- `int` only at the end.
      infoPg.history.reverse.foldlM (fun data pgData => do
        let kv ← pgDataKv type pgData
        .ok (infoSaveValue data infoSectionDbHistory (fmtUInt (UInt32.ofNat pgData.id).toNat)
          (jsonFromKv kv))) (callbackFunction (some infoSectionDbHistory) data)
    else .ok data
  -- Process the callback even if none of the sections above get executed
  .ok (callbackFunction sectionNext data)

/-- The number that `STRID5` makes of the name. -/
def backupTypeId : BackupType → Nat
  | .full => 0x632a60
  | .diff => 0x319240
  | .incr => 0x90dc90

def strIdToStr (strId : Nat) : Str :=
  match StringId.strIdToZN strId with
  | .ok buffer => strNewN buffer
  | .error _ => []

/-- The values of a backup, with the keys in the order of the calls of `kvPut`. -/
def backupDataKv (backupData : InfoBackupData) : List (Str × Variant) :=
  [(infoKeyFormat, uint backupData.backrestFormat),
    (infoKeyVersion, .string backupData.backrestVersion),
    (infoKeyDbId, uint backupData.backupPgId),
    (infoBackupKeyBackupArchiveStart, strVar backupData.backupArchiveStart),
    (infoBackupKeyBackupArchiveStop, strVar backupData.backupArchiveStop)] ++
  (match backupData.backupPrior with
    | some backupPrior => [(infoBackupKeyBackupPrior, .string backupPrior)]
    | none => []) ++
  (match backupData.backupReference with
    | some backupReference =>
      [(infoBackupKeyBackupReference, .list (backupReference.map Variant.string))]
    | none => []) ++
  [(infoBackupKeyBackupInfoRepoSize, uint64 backupData.backupInfoRepoSize),
    (infoBackupKeyBackupInfoRepoSizeDelta, uint64 backupData.backupInfoRepoSizeDelta),
    (infoBackupKeyBackupInfoSize, uint64 backupData.backupInfoSize),
    (infoBackupKeyBackupInfoSizeDelta, uint64 backupData.backupInfoSizeDelta),
    (infoBackupKeyBackupTimestampStart, int64 backupData.backupTimestampStart),
    (infoBackupKeyBackupTimestampStop, int64 backupData.backupTimestampStop),
    (infoBackupKeyBackupType, .string (strIdToStr (backupTypeId backupData.backupType))),
    (infoBackupKeyOptArchiveCheck, bool backupData.optionArchiveCheck),
    (infoBackupKeyOptArchiveCopy, bool backupData.optionArchiveCopy),
    (infoBackupKeyOptBackupStandby, bool backupData.optionBackupStandby),
    (infoBackupKeyOptChecksumPage, bool backupData.optionChecksumPage),
    (infoBackupKeyOptCompress, bool backupData.optionCompress),
    (infoBackupKeyOptHardlink, bool backupData.optionHardlink),
    (infoBackupKeyOptOnline, bool backupData.optionOnline)]

def infoBackupSaveCallback (infoBackup : InfoBackup) (sectionNext : Option Str)
    (infoSaveData : InfoSave) : InfoSave :=
  if infoSaveSection infoSaveData infoBackupSectionBackupCurrent sectionNext then
    -- Set the backup current section
    infoBackup.backup.foldl (fun data backupData =>
      infoSaveValue data infoBackupSectionBackupCurrent backupData.backupLabel
        (jsonFromKv (backupDataKv backupData))) infoSaveData
  else infoSaveData

/-- `infoBackupSave`, which goes by `infoPgSave`. -/
def infoBackupSave (cryptoHash : Str → Str) (cipherPass : Option Str) (infoBackup : InfoBackup) :
    Except Error Str :=
  infoSave cryptoHash cipherPass
    (infoPgSaveCallback .backup infoBackup.infoPg (infoBackupSaveCallback infoBackup))

end Save

section Load

structure InfoPgLoadData (σ : Type) where
  callbackData : σ
  history : List InfoPgData := []
  /-- Current database id -/
  currentId : Nat := 0

def infoPgLoadCallback {σ : Type} (type : InfoPgType)
    (callbackFunction : σ → Str → Str → Variant → Except Error σ) (loadData : InfoPgLoadData σ)
    (currentSection key : Str) (value : Variant) : Except Error (InfoPgLoadData σ) :=
  -- Process db section
  if currentSection = infoSectionDb then
    if key = infoKeyDbId then
      (varUIntForce value).map fun currentId => { loadData with currentId := currentId }
    else .ok loadData
  -- Process db:history section
  else if currentSection = infoSectionDbHistory then do
    let pgDataKv ← varKv value
    let id ← cvtZToUInt key
    let versionStr ← varStr (kvGet pgDataKv infoKeyDbVersion)
    let version ← match versionStr with
      | some versionStr => pgVersionFromStr versionStr
      | none => .error (assertion "version != NULL")
    let catalogVersion ← match type with
      | .backup => varUIntForce (kvGet pgDataKv infoKeyDbCatalogVersion)
      | .archive => .ok 0
    -- This is different in archive.info due to a typo that can't be fixed without a format version bump
    let systemId ← varUInt64Force (kvGet pgDataKv (match type with
      | .archive => infoKeyDbId
      | .backup => infoKeyDbSystemId))
    -- Insert at beginning of list so the history is reverse ordered
    .ok { loadData with history := ⟨id, systemId, catalogVersion, version⟩ :: loadData.history }
  -- Callback if set
  else
    (callbackFunction loadData.callbackData currentSection key value).map fun callbackData =>
      { loadData with callbackData := callbackData }

def check (condition : String) : Error :=
  ⟨.assertError, "check '".toList ++ condition.toList ++ "' failed".toList⟩

def historyFind (history : List InfoPgData) (currentId : Nat) : Option Nat :=
  (history.zipIdx.reverse.find? fun entry => entry.1.id == currentId).map Prod.snd

/-- The end of `infoPgNewLoad`. -/
def infoPgLoaded {σ : Type} (loadData : InfoPgLoadData σ) : Except Error (InfoPg × σ) :=
  -- History must include at least one item or the file is corrupt
  if loadData.history = [] then .error (check "!lstEmpty(this->pub.history)")
  -- If the current id was not found then the file is corrupt
  else if loadData.currentId = 0 then .error (check "loadData.currentId > 0")
  else
    -- Find the current history item
    match historyFind loadData.history loadData.currentId with
    -- If the current id did not match the history list then the file is corrupt
    | none => .error (check "this->historyCurrent != UINT_MAX")
    | some historyCurrent => .ok (⟨loadData.history, historyCurrent⟩, loadData.callbackData)

def infoPgNewLoad {σ : Type} (cryptoHash : Str → Str) (outside : Str → Except Error Variant)
    (type : InfoPgType) (callbackFunction : σ → Str → Str → Variant → Except Error σ)
    (fuel : Nat) (read : IoRead) (callbackData : σ) :
    Outcome Error (IoRead × Except Error (Info × InfoPg × σ)) :=
  (infoNewLoad (infoPgLoadCallback type callbackFunction) cryptoHash outside fuel read
    { callbackData := callbackData }).bind fun (read, result) =>
      .ok (read, result.bind fun (info, loadData) =>
        (infoPgLoaded loadData).map fun (infoPg, callbackData) => (info, infoPg, callbackData))

def backupTypeFind (backupType : Nat) : Except Error BackupType :=
  match [BackupType.full, .diff, .incr].find? fun type => backupTypeId type == backupType with
  | some type => .ok type
  | none => .error (assertion ("infoBackupData.backupType == backupTypeFull || " ++
      "infoBackupData.backupType == backupTypeDiff || " ++
      "infoBackupData.backupType == backupTypeIncr"))

/-- `strLstNewVarLst` where there is a list. -/
def referenceRead : Variant → Except Error (Option (List Str))
  | .null => .ok none
  | value => (strLstNewVarLst value).map some

def infoBackupLoadCallback (backup : List InfoBackupData) (currentSection key : Str)
    (value : Variant) : Except Error (List InfoBackupData) :=
  -- Process current backup list
  if currentSection = infoBackupSectionBackupCurrent then do
    let backupKv ← varKv value
    let backrestFormat ← varUIntForce (kvGet backupKv infoKeyFormat)
    let backrestVersion ← InfoBackupFile.varStrForce (kvGet backupKv infoKeyVersion)
    let backupInfoRepoSize ← varUInt64 (kvGet backupKv infoBackupKeyBackupInfoRepoSize)
    let backupInfoRepoSizeDelta ← varUInt64 (kvGet backupKv infoBackupKeyBackupInfoRepoSizeDelta)
    let backupInfoSize ← varUInt64 (kvGet backupKv infoBackupKeyBackupInfoSize)
    let backupInfoSizeDelta ← varUInt64 (kvGet backupKv infoBackupKeyBackupInfoSizeDelta)
    let backupPgId ← (InfoBackupFile.varStrForce (kvGet backupKv infoKeyDbId)).bind cvtZToUInt
    -- When reading timestamps, read as uint64 to ensure always positive value (guarantee no backups
    -- before 1970)
    let backupTimestampStart ← varUInt64 (kvGet backupKv infoBackupKeyBackupTimestampStart)
    let backupTimestampStop ← varUInt64 (kvGet backupKv infoBackupKeyBackupTimestampStop)
    let backupTypeStr ← varStr (kvGet backupKv infoBackupKeyBackupType)
    let backupType ← match backupTypeStr with
      | some backupTypeStr => backupTypeFind (StringId.strIdFromZN .stringIdBit5 (toBytes backupTypeStr))
      | none => .error (assertion "this != NULL")
    -- Possible NULL values
    let backupArchiveStart ← varStr (kvGet backupKv infoBackupKeyBackupArchiveStart)
    let backupArchiveStop ← varStr (kvGet backupKv infoBackupKeyBackupArchiveStop)
    let backupPrior ← varStr (kvGet backupKv infoBackupKeyBackupPrior)
    let backupReference ← referenceRead (kvGet backupKv infoBackupKeyBackupReference)
    -- Options
    let optionArchiveCheck ← varBool (kvGet backupKv infoBackupKeyOptArchiveCheck)
    let optionArchiveCopy ← varBool (kvGet backupKv infoBackupKeyOptArchiveCopy)
    let optionBackupStandby ← varBool (kvGet backupKv infoBackupKeyOptBackupStandby)
    let optionChecksumPage ← varBool (kvGet backupKv infoBackupKeyOptChecksumPage)
    let optionCompress ← varBool (kvGet backupKv infoBackupKeyOptCompress)
    let optionHardlink ← varBool (kvGet backupKv infoBackupKeyOptHardlink)
    let optionOnline ← varBool (kvGet backupKv infoBackupKeyOptOnline)
    -- Add the backup data to the list
    .ok (backup ++ [{
      backupLabel := key
      backrestFormat := backrestFormat
      backrestVersion := backrestVersion
      backupArchiveStart := backupArchiveStart
      backupArchiveStop := backupArchiveStop
      backupInfoRepoSize := backupInfoRepoSize
      backupInfoRepoSizeDelta := backupInfoRepoSizeDelta
      backupInfoSize := backupInfoSize
      backupInfoSizeDelta := backupInfoSizeDelta
      backupPgId := backupPgId
      backupPrior := backupPrior
      backupReference := backupReference
      backupTimestampStart := (Int64.ofInt backupTimestampStart).toInt
      backupTimestampStop := (Int64.ofInt backupTimestampStop).toInt
      backupType := backupType
      optionArchiveCheck := optionArchiveCheck
      optionArchiveCopy := optionArchiveCopy
      optionBackupStandby := optionBackupStandby
      optionChecksumPage := optionChecksumPage
      optionCompress := optionCompress
      optionHardlink := optionHardlink
      optionOnline := optionOnline }])
  else .ok backup

def infoBackupNewLoad (cryptoHash : Str → Str) (outside : Str → Except Error Variant) (fuel : Nat)
    (read : IoRead) : Outcome Error (IoRead × Except Error (Info × InfoBackup)) :=
  (infoPgNewLoad cryptoHash outside .backup infoBackupLoadCallback fuel read []).bind
    fun (read, result) =>
      .ok (read, result.map fun (info, infoPg, backup) => (info, ⟨infoPg, backup⟩))

end Load

end InfoBackupFile
