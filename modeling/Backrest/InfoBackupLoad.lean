import Backrest.InfoBackupFile
import Backrest.InfoRoundTrip

/-!
# Loading backup.info

What a save writes is given as entries: the backups behind the passphrase, or at the start of the
last sections when there is none, then the current entry and the history from its end. The
callback of the load takes them to the history in its order, the id of the current entry and the
backups.
-/

namespace InfoBackupFile

open Text FuelLoop StreamFilter FilterGroup ReadStream IniLoad Json BackupCommon BackupInfo InfoFile

section Claimed

/-- The numbers are numbers of their types, and the version is supported. -/
structure ValidPgData (pgData : InfoPgData) : Prop where
  id : pgData.id < 2 ^ 32
  systemId : pgData.systemId < 2 ^ 64
  catalogVersion : pgData.catalogVersion < 2 ^ 32
  version : pgData.version ∈ pgInterface.map Prod.fst

/-- The numbers are numbers of their types, with times from 1970 on. The label is the key of a
line. -/
structure ValidBackup (backupData : InfoBackupData) : Prop where
  label : backupData.backupLabel ≠ [] ∧ '\n' ∉ backupData.backupLabel ∧
    ByteText backupData.backupLabel
  caught : Caught backupData.backupLabel (jsonFromKv (backupDataKv backupData))
  backrestFormat : backupData.backrestFormat < 2 ^ 32
  backrestVersion : ByteText backupData.backrestVersion
  backupArchiveStart : ∀ text ∈ backupData.backupArchiveStart, ByteText text
  backupArchiveStop : ∀ text ∈ backupData.backupArchiveStop, ByteText text
  backupInfoRepoSize : backupData.backupInfoRepoSize < 2 ^ 64
  backupInfoRepoSizeDelta : backupData.backupInfoRepoSizeDelta < 2 ^ 64
  backupInfoSize : backupData.backupInfoSize < 2 ^ 64
  backupInfoSizeDelta : backupData.backupInfoSizeDelta < 2 ^ 64
  backupPgId : backupData.backupPgId < 2 ^ 32
  backupPrior : ∀ text ∈ backupData.backupPrior, ByteText text
  backupReference : ∀ list ∈ backupData.backupReference, ∀ text ∈ list, ByteText text
  backupTimestampStart : 0 ≤ backupData.backupTimestampStart ∧ backupData.backupTimestampStart < 2 ^ 63
  backupTimestampStop : 0 ≤ backupData.backupTimestampStop ∧ backupData.backupTimestampStop < 2 ^ 63

structure ValidInfoBackup (this : InfoBackup) : Prop where
  history : ∀ pgData ∈ this.infoPg.history, ValidPgData pgData
  distinct : (this.infoPg.history.map InfoPgData.id).Nodup
  current : this.infoPg.historyCurrent < this.infoPg.history.length
  backup : ∀ backupData ∈ this.backup, ValidBackup backupData

/-- The object is saved, and each reader of the text loads it. -/
def LoadsBack (cryptoHash : Str → CText) (outside : Str → Except Error Variant)
    (cipherPass : Option CText) (this : InfoBackup) (bufferSize : Nat) (block : Bool) : Prop :=
  ∃ text, infoBackupSave (fun text => (cryptoHash text).1) (cipherPass.map Subtype.val) this =
      .ok text ∧
    ∀ fragments : List Bytes, fragments.flatten = toBytes text →
      ∃ after, Returns (fun fuel => infoBackupNewLoad (fun text => (cryptoHash text).1) outside fuel
        (ioReadOpen bufferSize block [] fragments))
          (after, .ok (⟨some projectVersion, cipherPass.map Subtype.val⟩, this))

end Claimed

section Numbers

theorem parsed_uint {value : Nat} (fits : value < 2 ^ 32) : parsed (uint value) = uint64 value := by
  have whole : (UInt32.ofNat value).toNat = value := Nat.mod_eq_of_lt fits
  rw [uint, parsed, Scalar.parsed, Scalar.integer]
  simp only
  rw [number, if_neg (by omega), whole]
  rfl

theorem parsed_uint64 {value : Nat} (fits : value < 2 ^ 64) :
    parsed (uint64 value) = uint64 value := by
  have whole : (UInt64.ofNat value).toNat = value := Nat.mod_eq_of_lt fits
  rw [uint64, parsed, Scalar.parsed, Scalar.integer]
  simp only
  rw [number, if_neg (by omega), whole]
  rfl

theorem int64_toInt {value : Int} (low : 0 ≤ value) (fits : value < 2 ^ 63) :
    (Int64.ofInt value).toInt = value := by
  rw [Int64.toInt_ofInt_of_le]
  · have bound : -2 ^ 63 ≤ (0 : Int) := by decide
    omega
  · exact fits

theorem parsed_int64 {value : Int} (low : 0 ≤ value) (fits : value < 2 ^ 63) :
    parsed (int64 value) = uint64 value.toNat := by
  rw [int64, parsed, Scalar.parsed, Scalar.integer]
  simp only
  rw [int64_toInt low fits, number, if_neg (by omega), uint64]

theorem varUInt64_uint64 {value : Nat} (fits : value < 2 ^ 64) :
    varUInt64 (uint64 value) = .ok value := by
  have whole : (UInt64.ofNat value).toNat = value := Nat.mod_eq_of_lt fits
  rw [uint64, varUInt64, whole]

theorem varForce_uint64 {bound value : Nat} {name : String} {cvt : Str → Except Error Nat}
    (fits : value < bound) (small : value < 2 ^ 64) :
    varForce bound name cvt (uint64 value) = .ok value := by
  have whole : (UInt64.ofNat value).toNat = value := Nat.mod_eq_of_lt small
  rw [uint64, varForce]
  simp only [Scalar.integer, Option.getD_some, whole]
  rw [if_pos (by omega), Int.toNat_natCast]
  intro text same
  cases same

theorem cvtZToUInt_fmtUInt {value : Nat} (fits : value < 2 ^ 32) :
    cvtZToUInt (fmtUInt value) = .ok value := by
  obtain ⟨c, digits, shape, digit⟩ := exists_digit value
  have noSign : c ≠ '+' := ne_of_isDigit digit rfl
  have all : (fmtUInt value).all Char.isDigit = true :=
    List.all_eq_true.mpr fun d mem => isDigit_of_mem_fmtUInt mem
  rw [cvtZToUInt]
  · rw [if_pos ⟨by rw [shape]; exact List.cons_ne_nil _ _, all, by rw [cvtDigits_fmtUInt]; exact fits⟩,
      cvtDigits_fmtUInt]
  · intro rest same
    rw [shape] at same
    exact noSign (List.cons.inj same).1

theorem pgVersionFromStr_toStr {version : Nat} (supported : version ∈ pgInterface.map Prod.fst) :
    pgVersionFromStr (pgVersionToStr version) = .ok version := by
  simp only [pgInterface, List.map_cons, List.map_nil, List.mem_cons, List.not_mem_nil, or_false]
    at supported
  rcases supported with rfl | rfl | rfl | rfl | rfl | rfl | rfl | rfl | rfl | rfl | rfl | rfl | rfl |
    rfl
  all_goals rfl

theorem pgControlVersion_supported {version : Nat}
    (supported : version ∈ pgInterface.map Prod.fst) :
    ∃ controlVersion, pgControlVersion version = .ok controlVersion := by
  obtain ⟨controlVersion, found, -⟩ : ∃ value, pgInterface.lookup version = some value ∧ True := by
    cases found : pgInterface.lookup version with
    | some value => exact ⟨value, rfl, trivial⟩
    | none =>
      rw [List.lookup_eq_none_iff] at found
      obtain ⟨pair, mem, rfl⟩ := List.mem_map.mp supported
      have other := found pair mem
      simp at other
  exact ⟨controlVersion, by rw [pgControlVersion, found]⟩

theorem backupType_reads (type : BackupType) :
    backupTypeFind (StringId.strIdFromZN .stringIdBit5 (toBytes (strIdToStr (backupTypeId type)))) =
      .ok type := by
  cases type <;> rfl

theorem backupType_text (type : BackupType) :
    strIdToStr (backupTypeId type) ∈ ["full".toList, "diff".toList, "incr".toList] := by
  cases type <;> decide

end Numbers

section Objects

theorem lookup_keys {α : Type} (value : Str → α) (keys : List Str) (key : Str) :
    (keys.map fun k => (k, value k)).lookup key = if key ∈ keys then some (value key) else none := by
  induction keys with
  | nil => rfl
  | cons k keys ih =>
    rw [List.map_cons, List.lookup_cons]
    by_cases same : key = k
    · subst same
      simp
    · have other : (key == k) = false := beq_eq_false_iff_ne.mpr same
      rw [other, ih]
      simp [same]

/-- The order of the keys does not matter to a reader. -/
theorem lookup_parsed (pairs : List (Str × Variant)) (key : Str) :
    (sortedPairs .null (parsedPairs pairs)).lookup key = (pairs.lookup key).map parsed := by
  have found : (parsedPairs pairs).lookup key = (pairs.lookup key).map parsed := by
    rw [parsedPairs_eq, Json.lookup_map]
  rw [← found, sortedPairs, lookup_keys]
  by_cases mem : key ∈ (parsedPairs pairs).map (·.1)
  · rw [if_pos (mem_strLstSort.mpr mem)]
    cases isValue : (parsedPairs pairs).lookup key with
    | some value => rfl
    | none =>
      obtain ⟨pair, inside, rfl⟩ := List.mem_map.mp mem
      have other := List.lookup_eq_none_iff.mp isValue pair inside
      simp at other
  · rw [if_neg (fun inside => mem (mem_strLstSort.mp inside))]
    refine (List.lookup_eq_none_iff.mpr fun pair held => ?_).symm
    rw [bne_iff_ne]
    rintro rfl
    exact mem (List.mem_map_of_mem held)

theorem kvGet_parsed (pairs : List (Str × Variant)) (key : Str) :
    kvGet (sortedPairs .null (parsedPairs pairs)) key = parsed (kvGet pairs key) := by
  rw [kvGet, lookup_parsed, kvGet]
  cases pairs.lookup key with
  | none =>
    simp only [Option.map_none, Option.getD_none]
    rw [parsed]
  | some value => rfl

theorem kvGet_backupDataKv (backupData : InfoBackupData) {key : Str}
    (noPrior : key ≠ infoBackupKeyBackupPrior) (noReference : key ≠ infoBackupKeyBackupReference) :
    kvGet (backupDataKv backupData) key =
      kvGet (backupDataKv { backupData with backupPrior := none, backupReference := none }) key := by
  have prior : (key == infoBackupKeyBackupPrior) = false := beq_eq_false_iff_ne.mpr noPrior
  have reference : (key == infoBackupKeyBackupReference) = false :=
    beq_eq_false_iff_ne.mpr noReference
  unfold kvGet backupDataKv
  simp only [List.lookup_append]
  cases backupData.backupPrior with
  | none =>
    cases backupData.backupReference with
    | none => rfl
    | some list => simp only [List.lookup_cons, reference]
  | some text =>
    cases backupData.backupReference with
    | none => simp only [List.lookup_cons, prior]
    | some list => simp only [List.lookup_cons, prior, reference]

end Objects

theorem ok_bind {α β : Type} (a : α) (next : α → Except Error β) :
    (Except.ok a >>= next) = next a := rfl

section Entries

def controlVersion (version : Nat) : UInt32 := (pgInterface.lookup version).getD 0

def historyKv (pgData : InfoPgData) : List (Str × Variant) :=
  [(infoKeyDbVersion, .string (pgVersionToStr pgData.version)),
    (infoKeyDbSystemId, uint64 pgData.systemId), (infoKeyDbCatalogVersion, uint pgData.catalogVersion),
    (infoKeyDbControlVersion, .scalar (.uint (controlVersion pgData.version)))]

def historyEntry (pgData : InfoPgData) : Entry :=
  ⟨infoSectionDbHistory, fmtUInt pgData.id, .kv (historyKv pgData)⟩

def dbEntries (pgData : InfoPgData) : List Entry :=
  [⟨infoSectionDb, infoKeyDbCatalogVersion, uint pgData.catalogVersion⟩,
    ⟨infoSectionDb, infoKeyDbControlVersion, .scalar (.uint (controlVersion pgData.version))⟩,
    ⟨infoSectionDb, infoKeyDbId, uint pgData.id⟩,
    ⟨infoSectionDb, infoKeyDbSystemId, uint64 pgData.systemId⟩,
    ⟨infoSectionDb, infoKeyDbVersion, .string (pgVersionToStr pgData.version)⟩]

def backupEntry (backupData : InfoBackupData) : Entry :=
  ⟨infoBackupSectionBackupCurrent, backupData.backupLabel, .kv (backupDataKv backupData)⟩

/-- What each call of the callback of the save adds. -/
def infoBackupEntries (encrypted : Bool) (this : InfoBackup) (current : InfoPgData) :
    Option Str → List Entry
  | some sectionNext =>
    if sectionNext = infoSectionCipher then this.backup.map backupEntry else []
  | none =>
    (if encrypted then [] else this.backup.map backupEntry) ++
      (dbEntries current ++ this.infoPg.history.reverse.map historyEntry)

/-- The load of a value that stands in an object. -/
theorem kv_received {pgData : InfoPgData} (valid : ValidPgData pgData)
    (loadData : InfoPgLoadData (List InfoBackupData)) :
    infoPgLoadCallback .backup infoBackupLoadCallback loadData infoSectionDbHistory
      (fmtUInt pgData.id) (parsed (.kv (historyKv pgData))) =
      .ok { loadData with history := pgData :: loadData.history } := by
  have get := kvGet_parsed (historyKv pgData)
  have version : kvGet (historyKv pgData) infoKeyDbVersion =
      .string (pgVersionToStr pgData.version) := rfl
  have catalog : kvGet (historyKv pgData) infoKeyDbCatalogVersion = uint pgData.catalogVersion := rfl
  have systemId : kvGet (historyKv pgData) infoKeyDbSystemId = uint64 pgData.systemId := rfl
  have text : parsed (.string (pgVersionToStr pgData.version)) =
      .string (pgVersionToStr pgData.version) := by rw [parsed]
  have versionRead := pgVersionFromStr_toStr valid.version
  have catalogRead : varUIntForce (uint64 pgData.catalogVersion) = .ok pgData.catalogVersion :=
    varForce_uint64 valid.catalogVersion (by have := valid.catalogVersion; omega)
  have systemRead : varUInt64Force (uint64 pgData.systemId) = .ok pgData.systemId :=
    varForce_uint64 valid.systemId valid.systemId
  rw [infoPgLoadCallback, if_neg (by decide), if_pos rfl, parsed, varKv]
  simp only [ok_bind, get, version, catalog, systemId, text, parsed_uint valid.catalogVersion,
    parsed_uint64 valid.systemId, varStr, cvtZToUInt_fmtUInt valid.id, versionRead, catalogRead,
    systemRead]

theorem parsed_string (text : Str) : parsed (.string text) = .string text := by rw [parsed]

theorem varStr_string (text : Str) : varStr (.string text) = .ok (some text) := rfl

theorem varStrForce_string (text : Str) :
    InfoBackupFile.varStrForce (.string text) = .ok text := rfl

theorem varStr_strVar (text : Option Str) : varStr (parsed (strVar text)) = .ok text := by
  cases text with
  | none => rw [strVar, parsed, varStr]
  | some text => rw [strVar, parsed_string, varStr]

theorem varBool_bool (value : Bool) : InfoBackupFile.varBool (parsed (bool value)) = .ok value := by
  rw [bool, parsed]
  rfl

theorem strLstNewVarLst_list (list : List Str) :
    strLstNewVarLst (.list (list.map Variant.string)) = .ok list := by
  rw [strLstNewVarLst]
  induction list with
  | nil => rfl
  | cons text list ih =>
    rw [List.map_cons, List.mapM_cons, ih]
    rfl

theorem kvGet_prior (backupData : InfoBackupData) :
    kvGet (backupDataKv backupData) infoBackupKeyBackupPrior = strVar backupData.backupPrior := by
  unfold kvGet backupDataKv
  cases backupData.backupPrior with
  | none => cases backupData.backupReference <;> rfl
  | some text => rfl

theorem kvGet_reference (backupData : InfoBackupData) :
    kvGet (backupDataKv backupData) infoBackupKeyBackupReference =
      (backupData.backupReference.map fun list => Variant.list (list.map Variant.string)).getD .null := by
  unfold kvGet backupDataKv
  cases backupData.backupPrior <;> cases backupData.backupReference <;> rfl

/-- What a load makes of the list of references, or of its absence. -/
theorem reference_received (reference : Option (List Str)) {value : Variant}
    (isValue : value = parsed ((reference.map fun list =>
      Variant.list (list.map Variant.string)).getD .null)) :
    referenceRead value = .ok reference := by
  cases reference with
  | none =>
    rw [isValue, Option.map_none, Option.getD_none, parsed, referenceRead]
  | some list =>
    have strings : parsedItems (list.map Variant.string) = list.map Variant.string := by
      rw [parsedItems_eq, List.map_map]
      exact List.map_congr_left fun text _ => parsed_string text
    rw [isValue, Option.map_some, Option.getD_some, parsed, strings, referenceRead,
      strLstNewVarLst_list]
    · rfl
    · exact fun same => Variant.noConfusion same

theorem backup_received {backupData : InfoBackupData} (valid : ValidBackup backupData)
    (backup : List InfoBackupData) :
    infoBackupLoadCallback backup infoBackupSectionBackupCurrent backupData.backupLabel
      (parsed (.kv (backupDataKv backupData))) = .ok (backup ++ [backupData]) := by
  have get (key : Str) (noPrior : key ≠ infoBackupKeyBackupPrior)
      (noReference : key ≠ infoBackupKeyBackupReference) :
      kvGet (sortedPairs .null (parsedPairs (backupDataKv backupData))) key =
        parsed (kvGet (backupDataKv
          { backupData with backupPrior := none, backupReference := none }) key) := by
    rw [kvGet_parsed, kvGet_backupDataKv backupData noPrior noReference]
  have uintOf {value : Nat} (fits : value < 2 ^ 32) :
      varUIntForce (parsed (uint value)) = .ok value := by
    rw [parsed_uint fits]
    exact varForce_uint64 fits (by omega)
  have sizeOf {value : Nat} (fits : value < 2 ^ 64) :
      varUInt64 (parsed (uint64 value)) = .ok value := by
    rw [parsed_uint64 fits]
    exact varUInt64_uint64 fits
  have timeOf {value : Int} (range : 0 ≤ value ∧ value < 2 ^ 63) :
      varUInt64 (parsed (int64 value)) = .ok value.toNat := by
    rw [parsed_int64 range.1 range.2]
    exact varUInt64_uint64 (by omega)
  have idOf : (InfoBackupFile.varStrForce (parsed (uint backupData.backupPgId))).bind cvtZToUInt =
      .ok backupData.backupPgId := by
    have whole : (UInt64.ofNat backupData.backupPgId).toNat = backupData.backupPgId :=
      Nat.mod_eq_of_lt (by have := valid.backupPgId; omega)
    rw [parsed_uint valid.backupPgId, uint64, InfoBackupFile.varStrForce, Json.varStrForce, whole]
    exact cvtZToUInt_fmtUInt valid.backupPgId
  have prior := kvGet_parsed (backupDataKv backupData) infoBackupKeyBackupPrior
  have reference := kvGet_parsed (backupDataKv backupData) infoBackupKeyBackupReference
  rw [kvGet_prior] at prior
  rw [kvGet_reference] at reference
  have listOf := reference_received backupData.backupReference reference
  rw [infoBackupLoadCallback, if_pos rfl, parsed, InfoBackupFile.varKv]
  generalize sortedPairs .null (parsedPairs (backupDataKv backupData)) = kv at get prior reference listOf ⊢
  have format : kvGet kv infoKeyFormat = parsed (uint backupData.backrestFormat) :=
    get _ (by decide) (by decide)
  have version : kvGet kv infoKeyVersion = parsed (.string backupData.backrestVersion) :=
    get _ (by decide) (by decide)
  have dbId : kvGet kv infoKeyDbId = parsed (uint backupData.backupPgId) :=
    get _ (by decide) (by decide)
  have start : kvGet kv infoBackupKeyBackupArchiveStart = parsed (strVar backupData.backupArchiveStart) :=
    get _ (by decide) (by decide)
  have stop : kvGet kv infoBackupKeyBackupArchiveStop = parsed (strVar backupData.backupArchiveStop) :=
    get _ (by decide) (by decide)
  have repoSize : kvGet kv infoBackupKeyBackupInfoRepoSize = parsed (uint64 backupData.backupInfoRepoSize) :=
    get _ (by decide) (by decide)
  have repoSizeDelta : kvGet kv infoBackupKeyBackupInfoRepoSizeDelta = parsed (uint64 backupData.backupInfoRepoSizeDelta) :=
    get _ (by decide) (by decide)
  have size : kvGet kv infoBackupKeyBackupInfoSize = parsed (uint64 backupData.backupInfoSize) :=
    get _ (by decide) (by decide)
  have sizeDelta : kvGet kv infoBackupKeyBackupInfoSizeDelta = parsed (uint64 backupData.backupInfoSizeDelta) :=
    get _ (by decide) (by decide)
  have timeStart : kvGet kv infoBackupKeyBackupTimestampStart = parsed (int64 backupData.backupTimestampStart) :=
    get _ (by decide) (by decide)
  have timeStop : kvGet kv infoBackupKeyBackupTimestampStop = parsed (int64 backupData.backupTimestampStop) :=
    get _ (by decide) (by decide)
  have type : kvGet kv infoBackupKeyBackupType = parsed (.string (strIdToStr (backupTypeId backupData.backupType))) :=
    get _ (by decide) (by decide)
  have archiveCheck : kvGet kv infoBackupKeyOptArchiveCheck = parsed (bool backupData.optionArchiveCheck) :=
    get _ (by decide) (by decide)
  have archiveCopy : kvGet kv infoBackupKeyOptArchiveCopy = parsed (bool backupData.optionArchiveCopy) :=
    get _ (by decide) (by decide)
  have standby : kvGet kv infoBackupKeyOptBackupStandby = parsed (bool backupData.optionBackupStandby) :=
    get _ (by decide) (by decide)
  have checksumPage : kvGet kv infoBackupKeyOptChecksumPage = parsed (bool backupData.optionChecksumPage) :=
    get _ (by decide) (by decide)
  have compress : kvGet kv infoBackupKeyOptCompress = parsed (bool backupData.optionCompress) :=
    get _ (by decide) (by decide)
  have hardlink : kvGet kv infoBackupKeyOptHardlink = parsed (bool backupData.optionHardlink) :=
    get _ (by decide) (by decide)
  have online : kvGet kv infoBackupKeyOptOnline = parsed (bool backupData.optionOnline) :=
    get _ (by decide) (by decide)
  have startTime : (Int64.ofInt backupData.backupTimestampStart.toNat).toInt =
      backupData.backupTimestampStart := by
    rw [Int.toNat_of_nonneg valid.backupTimestampStart.1]
    exact int64_toInt valid.backupTimestampStart.1 valid.backupTimestampStart.2
  have stopTime : (Int64.ofInt backupData.backupTimestampStop.toNat).toInt =
      backupData.backupTimestampStop := by
    rw [Int.toNat_of_nonneg valid.backupTimestampStop.1]
    exact int64_toInt valid.backupTimestampStop.1 valid.backupTimestampStop.2
  simp only [ok_bind, format, version, dbId, start, stop, repoSize, repoSizeDelta, size, sizeDelta,
    timeStart, timeStop, type, archiveCheck, archiveCopy, standby, checksumPage, compress, hardlink,
    online, prior, listOf, uintOf valid.backrestFormat, sizeOf valid.backupInfoRepoSize,
    sizeOf valid.backupInfoRepoSizeDelta, sizeOf valid.backupInfoSize,
    sizeOf valid.backupInfoSizeDelta, timeOf valid.backupTimestampStart,
    timeOf valid.backupTimestampStop, idOf, parsed_string, varStr_string, varStrForce_string,
    varStr_strVar, varBool_bool, backupType_reads, startTime, stopTime]

end Entries

section Received

abbrev LoadData := InfoPgLoadData (List InfoBackupData)

abbrev loadCallback : LoadData → Str → Str → Variant → Except Error LoadData :=
  infoPgLoadCallback .backup infoBackupLoadCallback

section ReceiveAll

variable {σ : Type} {callbackFunction : σ → Str → Str → Variant → Except Error σ}
  {callbackData next : σ}

theorem receiveAll_append {front : List Entry}
    (first : receiveAll callbackFunction callbackData front = .ok next) (back : List Entry) :
    receiveAll callbackFunction callbackData (front ++ back) =
      receiveAll callbackFunction next back := by
  rw [receiveAll] at first
  rw [receiveAll, List.foldlM_append, first]
  rfl

theorem receiveAll_cons {entry : Entry}
    (first : callbackFunction callbackData entry.currentSection entry.key (parsed entry.tree) =
      .ok next) (entries : List Entry) :
    receiveAll callbackFunction callbackData (entry :: entries) =
      receiveAll callbackFunction next entries := by
  rw [receiveAll, List.foldlM_cons, first]
  rfl

end ReceiveAll

theorem receive_backups {backup : List InfoBackupData}
    (valid : ∀ backupData ∈ backup, ValidBackup backupData) (loadData : LoadData) :
    receiveAll loadCallback loadData (backup.map backupEntry) =
      .ok { loadData with callbackData := loadData.callbackData ++ backup } := by
  induction backup generalizing loadData with
  | nil =>
    rw [List.append_nil]
    rfl
  | cons backupData backup ih =>
    rw [List.forall_mem_cons] at valid
    have first : loadCallback loadData infoBackupSectionBackupCurrent backupData.backupLabel
        (parsed (.kv (backupDataKv backupData))) =
          .ok { loadData with callbackData := loadData.callbackData ++ [backupData] } := by
      rw [loadCallback, infoPgLoadCallback, if_neg (by decide), if_neg (by decide),
        backup_received valid.1]
      rfl
    rw [List.map_cons, receiveAll_cons first, ih valid.2]
    simp only [List.append_assoc, List.singleton_append]

theorem receive_history {history : List InfoPgData}
    (valid : ∀ pgData ∈ history, ValidPgData pgData) (loadData : LoadData) :
    receiveAll loadCallback loadData (history.map historyEntry) =
      .ok { loadData with history := history.reverse ++ loadData.history } := by
  induction history generalizing loadData with
  | nil => rfl
  | cons pgData history ih =>
    rw [List.forall_mem_cons] at valid
    rw [List.map_cons, receiveAll_cons (kv_received valid.1 loadData), ih valid.2,
      List.reverse_cons, List.append_assoc, List.singleton_append]

/-- A value of the current entry other than the id. -/
theorem db_other {key : Str} (noId : key ≠ infoKeyDbId) (tree : Variant) (loadData : LoadData) :
    loadCallback loadData infoSectionDb key (parsed tree) = .ok loadData := by
  rw [loadCallback, infoPgLoadCallback, if_pos rfl, if_neg noId]

theorem db_id {pgData : InfoPgData} (valid : ValidPgData pgData) (loadData : LoadData) :
    loadCallback loadData infoSectionDb infoKeyDbId (parsed (uint pgData.id)) =
      .ok { loadData with currentId := pgData.id } := by
  have fits := valid.id
  rw [loadCallback, infoPgLoadCallback, if_pos rfl, if_pos rfl, parsed_uint valid.id, varUIntForce,
    varForce_uint64 fits (by omega)]
  rfl

theorem receive_db {pgData : InfoPgData} (valid : ValidPgData pgData) (loadData : LoadData) :
    receiveAll loadCallback loadData (dbEntries pgData) =
      .ok { loadData with currentId := pgData.id } := by
  have catalog : infoKeyDbCatalogVersion ≠ infoKeyDbId := by decide
  have control : infoKeyDbControlVersion ≠ infoKeyDbId := by decide
  have systemId : infoKeyDbSystemId ≠ infoKeyDbId := by decide
  have version : infoKeyDbVersion ≠ infoKeyDbId := by decide
  have id := db_id valid loadData
  rw [dbEntries, receiveAll_cons (db_other catalog _ loadData),
    receiveAll_cons (db_other control _ loadData),
    @receiveAll_cons _ loadCallback loadData _ ⟨infoSectionDb, infoKeyDbId, uint pgData.id⟩ id,
    receiveAll_cons (db_other systemId _ _), receiveAll_cons (db_other version _ _)]
  rfl

/-- The whole file is received as it was saved. -/
theorem receive_infoBackup {this : InfoBackup} (valid : ValidInfoBackup this)
    {current : InfoPgData} (validCurrent : ValidPgData current) (cipherPass : Option CText) :
    receiveAll loadCallback { callbackData := [] }
      (saved cipherPass (infoBackupEntries cipherPass.isSome this current)) =
        .ok ⟨this.backup, this.infoPg.history, current.id⟩ := by
  have backrest : infoBackupEntries cipherPass.isSome this current (some infoSectionBackrest) = [] := by
    rw [infoBackupEntries, if_neg (by decide)]
  have cipher : infoBackupEntries cipherPass.isSome this current (some infoSectionCipher) =
      this.backup.map backupEntry := by
    rw [infoBackupEntries, if_pos rfl]
  have reversed : ∀ pgData ∈ this.infoPg.history.reverse, ValidPgData pgData :=
    fun pgData mem => valid.history pgData (List.mem_reverse.mp mem)
  have whole : saved cipherPass (infoBackupEntries cipherPass.isSome this current) =
      this.backup.map backupEntry ++
        (dbEntries current ++ this.infoPg.history.reverse.map historyEntry) := by
    rw [saved, backrest, cipher, infoBackupEntries, List.nil_append]
    cases cipherPass.isSome with
    | false => rfl
    | true => rfl
  rw [whole, receiveAll_append (receive_backups valid.backup _),
    receiveAll_append (receive_db validCurrent _), receive_history reversed]
  simp only [List.nil_append, List.reverse_reverse, List.append_nil]

end Received

section Plain

/-- A key of an object that the program writes. -/
def KeyText (key : Str) : Prop :=
  key ≠ [] ∧ '"' ∉ key ∧ '\\' ∉ key ∧ '\n' ∉ key ∧ ByteText key

instance (key : Str) : Decidable (KeyText key) :=
  inferInstanceAs (Decidable (key ≠ [] ∧ '"' ∉ key ∧ '\\' ∉ key ∧ '\n' ∉ key ∧ ByteText key))

/-- A value without objects in it. -/
inductive Leaf : Variant → Prop
  | null : Leaf .null
  | scalar (value : Scalar) : Leaf (.scalar value)
  | string {text : Str} (bytes : ByteText text) : Leaf (.string text)
  | list {items : List Variant} (parts : ∀ item ∈ items, Leaf item) : Leaf (.list items)

theorem leaf_strings {texts : List Str} (bytes : ∀ text ∈ texts, ByteText text) :
    Leaf (.list (texts.map Variant.string)) := by
  refine .list fun item mem => ?_
  obtain ⟨text, inside, rfl⟩ := List.mem_map.mp mem
  exact .string (bytes text inside)

theorem Leaf.tree {v : Variant} (leaf : Leaf v) : ValidTree v := by
  induction leaf with
  | null => exact .null
  | scalar value => exact .scalar value
  | string bytes => exact .string fun mem => (bytes _ mem).2 rfl
  | list _ ih => exact .list ih

theorem Leaf.strings {v : Variant} (leaf : Leaf v) : EveryString ByteText v := by
  induction leaf with
  | null => exact .null
  | scalar value => exact .scalar value
  | string bytes => exact .string bytes
  | list _ ih => exact .list ih

theorem Leaf.keys {v : Variant} (leaf : Leaf v) (holds : Str → Prop) : EveryKey holds v := by
  induction leaf with
  | null => exact .null
  | scalar value => exact .scalar value
  | string => exact .string _
  | list _ ih => exact .list ih

theorem leaf_strVar {text : Option Str} (bytes : ∀ t ∈ text, ByteText t) : Leaf (strVar text) := by
  cases text with
  | none => exact .null
  | some t => exact .string (bytes t rfl)

/-- An object of such values. -/
structure Flat (pairs : List (Str × Variant)) : Prop where
  distinct : (pairs.map (·.1)).Nodup
  keys : ∀ key ∈ pairs.map (·.1), KeyText key
  values : ∀ pair ∈ pairs, Leaf pair.2

theorem byteText_law : TextLaw ByteText ByteText ByteText where
  append := fun first second c mem => (List.mem_append.mp mem).elim (first c) (second c)
  letters := by
    intro text letters c mem
    have letter := List.all_eq_true.mp letters c mem
    have ranges : c.isAlphanum = (decide (65 ≤ c.toNat ∧ c.toNat ≤ 90) ||
        (decide (97 ≤ c.toNat) && decide (c.toNat ≤ 122)) ||
        (decide (48 ≤ c.toNat) && decide (c.toNat ≤ 57))) := rfl
    simp only [plainLetter, ranges, Bool.or_eq_true, Bool.and_eq_true, decide_eq_true_eq] at letter
    have code : c.toNat < 256 ∧ c.toNat ≠ 0 := by
      rcases letter with (((((((((upper | lower) | digit) | rfl) | rfl) | rfl) | rfl) | rfl) | rfl) |
        rfl)
      · omega
      · omega
      · omega
      all_goals decide
    refine ⟨code.1, ?_⟩
    rintro rfl
    exact code.2 rfl
  text := byteText_string
  key := by
    intro text bytes c mem
    simp only [List.mem_cons, List.mem_append, List.not_mem_nil, or_false] at mem
    rcases mem with rfl | inside | rfl
    · decide
    · exact bytes c inside
    · decide

/-- An entry with such an object. -/
theorem Flat.plain {pairs : List (Str × Variant)} (flat : Flat pairs) {currentSection key : Str}
    (sectionText : currentSection ≠ [] ∧ '\n' ∉ currentSection ∧ ByteText currentSection)
    (keyText : key ≠ [] ∧ '\n' ∉ key ∧ ByteText key) (caught : Caught key (jsonFromKv pairs))
    (open' : currentSection ≠ infoSectionBackrest ∧ currentSection ≠ infoSectionCipher) :
    PlainEntry ⟨currentSection, key, .kv pairs⟩ := by
  have keys {holds : Str → Prop} (weaker : ∀ key, KeyText key → holds key) :
      EveryKey holds (.kv pairs) := by
    refine .kv (fun pair mem => weaker _ (flat.keys _ (List.mem_map_of_mem mem))) fun pair mem => ?_
    exact (flat.values pair mem).keys holds
  have tree : ValidTree (.kv pairs) := by
    refine .kv flat.distinct (fun pair mem => ?_) fun pair mem => (flat.values pair mem).tree
    have key := flat.keys _ (List.mem_map_of_mem mem)
    exact ⟨key.1, fun zero => (key.2.2.2.2 _ zero).2 rfl⟩
  have text : varSub (.kv pairs) = jsonFromKv pairs := by rw [varSub, jsonFromKv]
  refine ⟨⟨⟨sectionText, keyText, tree, ?_, ?_⟩, keys fun key all => ⟨all.2.1, all.2.2.1, all.2.2.2.1⟩,
    ?_⟩, open'⟩
  · rw [text, jsonFromKv, kvText]
    rw [List.cons_append, List.head?_cons]
    exact fun same => absurd same (by decide)
  · exact byteText_law.varSub _ (.kv fun pair mem => (flat.values pair mem).strings)
      (keys fun key all => all.2.2.2.2)
  · rw [text]
    exact caught

/-- An entry with a single value. -/
theorem leaf_plain {v : Variant} (leaf : Leaf v) (noList : (varSub v).head? ≠ some '[')
    {currentSection key : Str}
    (sectionText : currentSection ≠ [] ∧ '\n' ∉ currentSection ∧ ByteText currentSection)
    (keyText : key ≠ [] ∧ '\n' ∉ key ∧ ByteText key) (noEquals : '=' ∉ key)
    (open' : currentSection ≠ infoSectionBackrest ∧ currentSection ≠ infoSectionCipher) :
    PlainEntry ⟨currentSection, key, v⟩ :=
  ⟨⟨⟨sectionText, keyText, leaf.tree, noList, byteText_law.varSub _ leaf.strings (leaf.keys _)⟩,
    leaf.keys _, caught_of_not_mem noEquals _⟩, open'⟩

theorem scalar_noList (value : Scalar) : (varSub (.scalar value)).head? ≠ some '[' := by
  rcases varSub_scalar value with ⟨b, rfl⟩ | ⟨n, -, -, -, isText⟩
  · cases b with
    | true => rw [varSub]; decide
    | false => rw [varSub]; decide
  · obtain ⟨c, t, shape, first⟩ := fmtInt_head n
    rw [isText, shape, List.head?_cons]
    rintro ⟨⟩
    rcases first with minus | digit
    · cases minus
    · cases digit

theorem string_noList (value : Str) : (varSub (.string value)).head? ≠ some '[' := by
  rw [varSub, jsonFromStrInternal, List.cons_append, List.head?_cons]
  exact fun same => absurd same (by decide)

end Plain

section Save

theorem saveValues_append (data : InfoSave) (front back : List Saved) :
    saveValues data (front ++ back) = saveValues (saveValues data front) back := List.foldl_append

theorem saveValues_sectionLast {values : List Saved} {currentSection : Str}
    (same : ∀ value ∈ values, value.currentSection = currentSection) (some' : values ≠ [])
    (data : InfoSave) : (saveValues data values).sectionLast = some currentSection := by
  obtain ⟨front, last, rfl⟩ := List.eq_nil_or_concat values |>.resolve_left some'
  rw [List.concat_eq_append, saveValues_append, ← same last (by simp)]
  exact infoSaveValue_sectionLast _ _ _ _

theorem saveBackups (this : InfoBackup) {sectionNext : Option Str} {data : InfoSave}
    (open' : infoSaveSection data infoBackupSectionBackupCurrent sectionNext = true) :
    infoBackupSaveCallback this sectionNext data =
      saveValues data ((this.backup.map backupEntry).map Entry.saved) := by
  rw [infoBackupSaveCallback, if_pos open', saveValues, List.foldl_map, List.foldl_map]
  have text (backupData : InfoBackupData) :
      varSub (.kv (backupDataKv backupData)) = jsonFromKv (backupDataKv backupData) := by
    rw [varSub, jsonFromKv]
  simp only [Entry.saved, backupEntry, text]

theorem saveBackups_skip (this : InfoBackup) {sectionNext : Option Str} {data : InfoSave}
    (closed : infoSaveSection data infoBackupSectionBackupCurrent sectionNext = false) :
    infoBackupSaveCallback this sectionNext data = data := by
  rw [infoBackupSaveCallback, closed, if_neg Bool.false_ne_true]

theorem pgControlVersion_eq {version : Nat} (supported : version ∈ pgInterface.map Prod.fst) :
    pgControlVersion version = .ok (controlVersion version) := by
  obtain ⟨value, isValue⟩ := pgControlVersion_supported supported
  rw [isValue]
  rw [pgControlVersion] at isValue
  rw [controlVersion]
  cases found : pgInterface.lookup version with
  | none =>
    rw [found] at isValue
    cases isValue
  | some other =>
    rw [found] at isValue
    rw [Option.getD_some]
    exact isValue.symm

theorem saveHistory {history : List InfoPgData} (valid : ∀ pgData ∈ history, ValidPgData pgData)
    (data : InfoSave) :
    history.foldlM (fun data pgData => do
      let kv ← pgDataKv .backup pgData
      .ok (infoSaveValue data infoSectionDbHistory (fmtUInt (UInt32.ofNat pgData.id).toNat)
        (jsonFromKv kv))) data =
      Except.ok (saveValues data ((history.map historyEntry).map Entry.saved)) := by
  induction history generalizing data with
  | nil => rfl
  | cons pgData history ih =>
    rw [List.forall_mem_cons] at valid
    have kv : pgDataKv .backup pgData = .ok (historyKv pgData) := by
      rw [pgDataKv, pgControlVersion_eq valid.1.version]
      rfl
    have whole : (UInt32.ofNat pgData.id).toNat = pgData.id := Nat.mod_eq_of_lt valid.1.id
    have text : varSub (.kv (historyKv pgData)) = jsonFromKv (historyKv pgData) := by
      rw [varSub, jsonFromKv]
    rw [List.foldlM_cons, kv, ok_bind, ok_bind, ih valid.2, whole]
    simp only [List.map_cons, saveValues, List.foldl_cons, historyEntry, Entry.saved, text]

theorem saveDb (pgData : InfoPgData) (data : InfoSave) :
    infoSaveValue (infoSaveValue (infoSaveValue (infoSaveValue (infoSaveValue data infoSectionDb
      infoKeyDbCatalogVersion (jsonFromUInt (UInt32.ofNat pgData.catalogVersion)))
      infoSectionDb infoKeyDbControlVersion (jsonFromUInt (controlVersion pgData.version)))
      infoSectionDb infoKeyDbId (jsonFromUInt (UInt32.ofNat pgData.id)))
      infoSectionDb infoKeyDbSystemId (jsonFromUInt64 (UInt64.ofNat pgData.systemId)))
      infoSectionDb infoKeyDbVersion (jsonFromStrInternal (pgVersionToStr pgData.version)) =
      saveValues data ((dbEntries pgData).map Entry.saved) := by
  simp only [dbEntries, List.map_cons, List.map_nil, saveValues, List.foldl_cons, List.foldl_nil,
    Entry.saved, uint, uint64, varSub]

theorem savePg {this : InfoBackup} (valid : ValidInfoBackup this) {current : InfoPgData}
    (isCurrent : infoPgDataCurrent this.infoPg = .ok current) (validCurrent : ValidPgData current)
    {data : InfoSave} {encrypted : Bool}
    (last : data.sectionLast = some (if encrypted then infoSectionCipher else infoSectionBackrest)) :
    infoPgSaveCallback .backup this.infoPg (infoBackupSaveCallback this) none data =
      .ok (saveValues data ((infoBackupEntries encrypted this current none).map Entry.saved)) := by
  have open' : infoSaveSection data infoSectionDb none = true := by
    rw [infoSaveSection, last]
    cases encrypted with
    | false => decide
    | true => decide
  obtain ⟨first, saveFirst⟩ : ∃ first, first = saveValues data
      ((if encrypted then [] else this.backup.map backupEntry).map Entry.saved) := ⟨_, rfl⟩
  have backups : infoBackupSaveCallback this (some infoSectionDb) data = first := by
    rw [saveFirst]
    cases encrypted with
    | false => exact saveBackups this (by rw [infoSaveSection, last]; decide)
    | true => exact saveBackups_skip this (by rw [infoSaveSection, last]; decide)
  have afterDb : (saveValues first ((dbEntries current).map Entry.saved)).sectionLast =
      some infoSectionDb := by
    apply saveValues_sectionLast
    · intro value mem
      obtain ⟨entry, inside, rfl⟩ := List.mem_map.mp mem
      simp only [dbEntries, List.mem_cons, List.not_mem_nil, or_false] at inside
      rcases inside with rfl | rfl | rfl | rfl | rfl
      all_goals rfl
    · exact List.cons_ne_nil _ _
  generalize isSecond : saveValues first ((dbEntries current).map Entry.saved) = second at afterDb
  have openHistory : infoSaveSection second infoSectionDbHistory none = true := by
    rw [infoSaveSection, afterDb]
    decide
  have noBackups : infoBackupSaveCallback this (some infoSectionDbHistory) second = second :=
    saveBackups_skip this (by rw [infoSaveSection, afterDb]; decide)
  have reversed : ∀ pgData ∈ this.infoPg.history.reverse, ValidPgData pgData :=
    fun pgData mem => valid.history pgData (List.mem_reverse.mp mem)
  have noneLeft : infoBackupSaveCallback this none
      (saveValues second ((this.infoPg.history.reverse.map historyEntry).map Entry.saved)) =
        saveValues second ((this.infoPg.history.reverse.map historyEntry).map Entry.saved) := by
    apply saveBackups_skip
    by_cases none : this.infoPg.history = []
    · rw [none, infoSaveSection]
      change (second.sectionLast.all _ && _) = false
      rw [afterDb]
      decide
    · have history : (saveValues second
          ((this.infoPg.history.reverse.map historyEntry).map Entry.saved)).sectionLast =
            some infoSectionDbHistory := by
        apply saveValues_sectionLast
        · intro value mem
          obtain ⟨entry, inside, rfl⟩ := List.mem_map.mp mem
          obtain ⟨pgData, -, rfl⟩ := List.mem_map.mp inside
          rfl
        · simp [none]
      rw [infoSaveSection, history]
      decide
  rw [infoPgSaveCallback]
  simp only [open', if_true, ok_bind, isCurrent, pgControlVersion_eq validCurrent.version, backups,
    saveDb, isSecond, openHistory, noBackups, saveHistory reversed, noneLeft]
  rw [infoBackupEntries, List.map_append, List.map_append, saveValues_append, saveValues_append,
    ← saveFirst, isSecond]

theorem savePg_begin (this : InfoBackup) :
    infoPgSaveCallback .backup this.infoPg (infoBackupSaveCallback this) (some infoSectionBackrest) {} =
      .ok {} := by
  have closed : infoBackupSaveCallback this (some infoSectionBackrest) {} = {} :=
    saveBackups_skip this (by decide)
  have noDb : infoSaveSection {} infoSectionDb (some infoSectionBackrest) = false := by decide
  have noHistory : infoSaveSection {} infoSectionDbHistory (some infoSectionBackrest) = false := by
    decide
  rw [infoPgSaveCallback]
  simp only [noDb, noHistory, Bool.false_eq_true, if_false, ok_bind, closed]

theorem savePg_cipher (this : InfoBackup) {data : InfoSave}
    (last : data.sectionLast = some infoSectionBackrest) :
    infoPgSaveCallback .backup this.infoPg (infoBackupSaveCallback this) (some infoSectionCipher)
      data = .ok (saveValues data ((this.backup.map backupEntry).map Entry.saved)) := by
  have backups := @saveBackups this (some infoSectionCipher) data
    (by rw [infoSaveSection, last]; decide)
  have noDb : infoSaveSection data infoSectionDb (some infoSectionCipher) = false := by
    rw [infoSaveSection, last]
    decide
  have noHistory : infoSaveSection data infoSectionDbHistory (some infoSectionCipher) = false := by
    rw [infoSaveSection, last]
    decide
  rw [infoPgSaveCallback]
  simp only [noDb, noHistory, Bool.false_eq_true, if_false, ok_bind, backups]

theorem infoSave_entries {cryptoHash : Str → CText} {cipherPass : Option CText}
    {entries : Option Str → List Entry} {callbackFunction : Option Str → InfoSave → Except Error InfoSave}
    (begins : callbackFunction (some infoSectionBackrest) {} =
      .ok (saveValues {} ((entries (some infoSectionBackrest)).map Entry.saved)))
    (cipher : ∀ data : InfoSave, data.sectionLast = some infoSectionBackrest →
      callbackFunction (some infoSectionCipher) data =
        .ok (saveValues data ((entries (some infoSectionCipher)).map Entry.saved)))
    (ends : ∀ data : InfoSave, data.sectionLast =
        some (if cipherPass.isSome then infoSectionCipher else infoSectionBackrest) →
      callbackFunction none data = .ok (saveValues data ((entries none).map Entry.saved))) :
    infoSave (fun text => (cryptoHash text).1) (cipherPass.map Subtype.val) callbackFunction =
      .ok (infoText cryptoHash cipherPass entries) := by
  cases cipherPass with
  | none =>
    have last := ends (infoSaveValue (infoSaveValue
      (saveValues {} ((entries (some infoSectionBackrest)).map Entry.saved)) infoSectionBackrest
        infoKeyFormat (jsonFromUInt InfoFile.repositoryFormat)) infoSectionBackrest infoKeyVersion
          (jsonFromStrInternal projectVersion)) (infoSaveValue_sectionLast _ _ _ _)
    rw [infoText, infoSave, begins, ok_bind]
    simp only [Option.map_none, pure_bind]
    rw [last]
    rfl
  | some pass =>
    have middle := cipher (infoSaveValue (infoSaveValue
      (saveValues {} ((entries (some infoSectionBackrest)).map Entry.saved)) infoSectionBackrest
        infoKeyFormat (jsonFromUInt InfoFile.repositoryFormat)) infoSectionBackrest infoKeyVersion
          (jsonFromStrInternal projectVersion)) (infoSaveValue_sectionLast _ _ _ _)
    have last (data : InfoSave) (isLast : data.sectionLast = some infoSectionCipher) :
        callbackFunction none data = .ok (saveValues data ((entries none).map Entry.saved)) :=
      ends data isLast
    rw [infoText, infoSave, begins, ok_bind]
    simp only [Option.map_some, pure_bind]
    rw [middle, ok_bind, last _ (infoSaveValue_sectionLast _ _ _ _)]
    rfl

/-- The file is the one with these entries. -/
theorem infoBackupSave_eq {this : InfoBackup} (valid : ValidInfoBackup this) {current : InfoPgData}
    (isCurrent : infoPgDataCurrent this.infoPg = .ok current) (validCurrent : ValidPgData current)
    (cryptoHash : Str → CText) (cipherPass : Option CText) :
    infoBackupSave (fun text => (cryptoHash text).1) (cipherPass.map Subtype.val) this =
      .ok (infoText cryptoHash cipherPass (infoBackupEntries cipherPass.isSome this current)) := by
  have first : infoBackupEntries cipherPass.isSome this current (some infoSectionBackrest) = [] := by
    rw [infoBackupEntries, if_neg (by decide)]
  have cipher : infoBackupEntries cipherPass.isSome this current (some infoSectionCipher) =
      this.backup.map backupEntry := by
    rw [infoBackupEntries, if_pos rfl]
  apply infoSave_entries
  · rw [first]
    exact savePg_begin this
  · intro data last
    rw [cipher]
    exact savePg_cipher this last
  · intro data last
    exact savePg valid isCurrent validCurrent last

end Save

section Loaded

theorem fmtUInt_bytes (n : Nat) : ByteText (fmtUInt n) := by
  intro c mem
  have digit := isDigit_of_mem_fmtUInt mem
  simp only [Char.isDigit, Bool.and_eq_true, decide_eq_true_eq, UInt32.le_iff_toNat_le] at digit
  have high : c.toNat ≤ 57 := digit.2
  have low : 48 ≤ c.toNat := digit.1
  refine ⟨by omega, ?_⟩
  rintro rfl
  exact absurd low (by decide)

theorem versionText_bytes (version : Nat) : ByteText (pgVersionToStr version) := by
  rw [pgVersionToStr]
  split
  · exact fmtUInt_bytes _
  · intro c mem
    rcases List.mem_append.mp mem with front | back
    · exact fmtUInt_bytes _ c front
    · rcases List.mem_cons.mp back with rfl | back
      · decide
      · exact fmtUInt_bytes _ c back

theorem fmtUInt_key (n : Nat) : fmtUInt n ≠ [] ∧ '\n' ∉ fmtUInt n ∧ '=' ∉ fmtUInt n := by
  refine ⟨Nat.toDigits_ne_nil, fun mem => ?_, fun mem => ?_⟩
  · cases isDigit_of_mem_fmtUInt mem
  · cases isDigit_of_mem_fmtUInt mem

theorem flat_history (pgData : InfoPgData) : Flat (historyKv pgData) where
  distinct := by
    change [infoKeyDbVersion, infoKeyDbSystemId, infoKeyDbCatalogVersion, infoKeyDbControlVersion].Nodup
    decide
  keys := by
    change ∀ key ∈ [infoKeyDbVersion, infoKeyDbSystemId, infoKeyDbCatalogVersion,
      infoKeyDbControlVersion], KeyText key
    decide
  values := by
    simp only [historyKv, List.forall_mem_cons]
    exact ⟨.string (versionText_bytes _), .scalar _, .scalar _, .scalar _, List.forall_mem_nil _⟩

def backupKeys : List Str :=
  [infoKeyFormat, infoKeyVersion, infoKeyDbId, infoBackupKeyBackupArchiveStart,
    infoBackupKeyBackupArchiveStop] ++ [infoBackupKeyBackupPrior] ++ [infoBackupKeyBackupReference] ++
  [infoBackupKeyBackupInfoRepoSize, infoBackupKeyBackupInfoRepoSizeDelta, infoBackupKeyBackupInfoSize, infoBackupKeyBackupInfoSizeDelta,
    infoBackupKeyBackupTimestampStart, infoBackupKeyBackupTimestampStop, infoBackupKeyBackupType,
    infoBackupKeyOptArchiveCheck, infoBackupKeyOptArchiveCopy, infoBackupKeyOptBackupStandby,
    infoBackupKeyOptChecksumPage, infoBackupKeyOptCompress, infoBackupKeyOptHardlink,
    infoBackupKeyOptOnline]

theorem backupDataKv_keys (backupData : InfoBackupData) :
    List.Sublist ((backupDataKv backupData).map (·.1)) backupKeys := by
  unfold backupDataKv backupKeys
  simp only [List.map_append]
  refine List.Sublist.append (List.Sublist.append (List.Sublist.append (.refl _) ?_) ?_) (.refl _)
  · cases backupData.backupPrior with
    | none => exact List.nil_sublist _
    | some text => exact .refl _
  · cases backupData.backupReference with
    | none => exact List.nil_sublist _
    | some list => exact .refl _

theorem flat_backup {backupData : InfoBackupData} (valid : ValidBackup backupData) :
    Flat (backupDataKv backupData) where
  distinct := (backupDataKv_keys backupData).nodup (by decide +kernel)
  keys := by
    have all : ∀ key ∈ backupKeys, KeyText key := by decide +kernel
    exact fun key mem => all key ((backupDataKv_keys backupData).subset mem)
  values := by
    have typeText : ByteText (strIdToStr (backupTypeId backupData.backupType)) := by
      have all : ∀ text ∈ ["full".toList, "diff".toList, "incr".toList], ByteText text := by decide
      exact all _ (backupType_text backupData.backupType)
    simp only [backupDataKv, List.forall_mem_append, List.forall_mem_cons]
    refine ⟨⟨⟨⟨.scalar _, .string valid.backrestVersion, .scalar _,
      leaf_strVar valid.backupArchiveStart, leaf_strVar valid.backupArchiveStop,
      List.forall_mem_nil _⟩, ?_⟩, ?_⟩, .scalar _, .scalar _, .scalar _, .scalar _, .scalar _, .scalar _,
      .string typeText, .scalar _, .scalar _, .scalar _, .scalar _, .scalar _, .scalar _, .scalar _,
      List.forall_mem_nil _⟩
    · cases prior : backupData.backupPrior with
      | none => exact List.forall_mem_nil _
      | some text => exact List.forall_mem_singleton.mpr (.string (valid.backupPrior text prior))
    · cases reference : backupData.backupReference with
      | none => exact List.forall_mem_nil _
      | some list => exact List.forall_mem_singleton.mpr (leaf_strings (valid.backupReference list reference))

theorem historyFind_current {history : List InfoPgData}
    (distinct : (history.map InfoPgData.id).Nodup) {idx : Nat} {current : InfoPgData}
    (isCurrent : history[idx]? = some current) : historyFind history current.id = some idx := by
  rw [historyFind]
  cases found : history.zipIdx.reverse.find? fun entry => entry.1.id == current.id with
  | none =>
    have mem : (current, idx) ∈ history.zipIdx.reverse :=
      List.mem_reverse.mpr (List.mk_mem_zipIdx_iff_getElem?.mpr isCurrent)
    have absent := List.find?_eq_none.mp found _ mem
    simp at absent
  | some entry =>
    obtain ⟨pgData, i⟩ := entry
    have mem := List.mem_reverse.mp (List.mem_of_find?_eq_some found)
    have isEntry : history[i]? = some pgData := List.mk_mem_zipIdx_iff_getElem?.mp mem
    have sameId : pgData.id = current.id := by
      have held := List.find?_some found
      exact beq_iff_eq.mp held
    have first : (history.map InfoPgData.id)[i]? = some current.id := by
      rw [List.getElem?_map, isEntry, Option.map_some, sameId]
    have second : (history.map InfoPgData.id)[idx]? = some current.id := by
      rw [List.getElem?_map, isCurrent, Option.map_some]
    obtain ⟨inside, -⟩ := List.getElem?_eq_some_iff.mp first
    have same : i = idx := (List.getElem?_inj inside distinct).mp (first.trans second.symm)
    rw [Option.map_some, same]

theorem section_text {currentSection : Str} (mem : currentSection ∈
    [infoSectionDb, infoSectionDbHistory, infoBackupSectionBackupCurrent]) :
    (currentSection ≠ [] ∧ '\n' ∉ currentSection ∧ ByteText currentSection) ∧
      currentSection ≠ infoSectionBackrest ∧ currentSection ≠ infoSectionCipher := by
  simp only [List.mem_cons, List.not_mem_nil, or_false] at mem
  rcases mem with rfl | rfl | rfl
  all_goals decide

theorem db_plain (pgData : InfoPgData) : ∀ entry ∈ dbEntries pgData, PlainEntry entry := by
  obtain ⟨text, open'⟩ := @section_text infoSectionDb (by decide)
  simp only [dbEntries, List.forall_mem_cons]
  refine ⟨?_, ?_, ?_, ?_, ?_, List.forall_mem_nil _⟩
  · exact leaf_plain (.scalar _) (scalar_noList _) text (by decide) (by decide) open'
  · exact leaf_plain (.scalar _) (scalar_noList _) text (by decide) (by decide) open'
  · exact leaf_plain (.scalar _) (scalar_noList _) text (by decide) (by decide) open'
  · exact leaf_plain (.scalar _) (scalar_noList _) text (by decide) (by decide) open'
  · exact leaf_plain (.string (versionText_bytes _)) (string_noList _) text (by decide) (by decide) open'

theorem infoBackupEntries_plain {this : InfoBackup} (valid : ValidInfoBackup this)
    (encrypted : Bool) (current : InfoPgData) (next : Option Str) :
    ∀ entry ∈ infoBackupEntries encrypted this current next, PlainEntry entry := by
  have backups : ∀ entry ∈ this.backup.map backupEntry, PlainEntry entry := by
    intro entry mem
    obtain ⟨backupData, inside, rfl⟩ := List.mem_map.mp mem
    obtain ⟨text, open'⟩ := @section_text infoBackupSectionBackupCurrent (by decide)
    have held := valid.backup backupData inside
    exact (flat_backup held).plain text held.label held.caught open'
  have history : ∀ entry ∈ this.infoPg.history.reverse.map historyEntry, PlainEntry entry := by
    intro entry mem
    obtain ⟨pgData, -, rfl⟩ := List.mem_map.mp mem
    obtain ⟨text, open'⟩ := @section_text infoSectionDbHistory (by decide)
    obtain ⟨some', oneLine, noEquals⟩ := fmtUInt_key pgData.id
    exact (flat_history pgData).plain text ⟨some', oneLine, fmtUInt_bytes pgData.id⟩
      (caught_of_not_mem noEquals _) open'
  cases next with
  | some sectionNext =>
    rw [infoBackupEntries]
    split
    · exact backups
    · exact List.forall_mem_nil _
  | none =>
    rw [infoBackupEntries, List.forall_mem_append, List.forall_mem_append]
    refine ⟨?_, db_plain current, history⟩
    split
    · exact List.forall_mem_nil _
    · exact backups

/-- `backup.info` is saved and each reader of the file loads it. -/
theorem infoBackupNewLoad_infoBackupSave (cryptoHash : Str → CText)
    (outside : Str → Except Error Variant) (cipherPass : Option CText) {this : InfoBackup}
    (valid : ValidInfoBackup this)
    (positive : ∀ current, infoPgDataCurrent this.infoPg = .ok current → 0 < current.id)
    {bufferSize : Nat} (block : Bool)
    (fits : ∀ text, infoBackupSave (fun text => (cryptoHash text).1) (cipherPass.map Subtype.val)
      this = .ok text → LinesFit bufferSize (toBytes text)) :
    LoadsBack cryptoHash outside cipherPass this bufferSize block := by
  obtain ⟨current, isEntry⟩ : ∃ current, this.infoPg.history[this.infoPg.historyCurrent]? =
      some current := ⟨_, List.getElem?_eq_getElem valid.current⟩
  have isCurrent : infoPgDataCurrent this.infoPg = .ok current := by
    rw [infoPgDataCurrent, infoPgData, lstGet, isEntry]
  have validCurrent := valid.history current (List.mem_of_getElem? isEntry)
  have saved := infoBackupSave_eq valid isCurrent validCurrent cryptoHash cipherPass
  refine ⟨_, saved, fun fragments whole => ?_⟩
  obtain ⟨after, returns⟩ := infoNewLoad_saved cryptoHash outside cipherPass
    (infoBackupEntries_plain valid cipherPass.isSome current)
    (receive_infoBackup valid validCurrent cipherPass) block whole (whole ▸ fits _ saved)
  have some' : this.infoPg.history ≠ [] := by
    intro none
    rw [none] at isEntry
    cases isEntry
  have loaded : infoPgLoaded (⟨this.backup, this.infoPg.history, current.id⟩ : LoadData) =
      .ok (this.infoPg, this.backup) := by
    rw [infoPgLoaded, if_neg some', if_neg (Nat.pos_iff_ne_zero.mp (positive current isCurrent)),
      historyFind_current valid.distinct isEntry]
  have pgLoaded : Returns (fun fuel => infoPgNewLoad (fun text => (cryptoHash text).1) outside .backup
      infoBackupLoadCallback fuel (ioReadOpen bufferSize block [] fragments) [])
        (after, .ok (⟨some projectVersion, cipherPass.map Subtype.val⟩, this.infoPg, this.backup)) := by
    refine returns.bind (.of_eq fun _ => ?_)
    simp only [Except.bind, loaded, Except.map]
  exact ⟨after, pgLoaded.bind (.of_eq fun _ => rfl)⟩

/-- The second version of the history is current, and the backup has a list of references. -/
def exampleBackup : InfoBackup where
  infoPg := ⟨[⟨2, 18446744073709551615, 202107181, 140000⟩, ⟨1, 1, 201409291, 90400⟩], 0⟩
  backup := [{
    backupLabel := "20210707-104310F_20210708-104310I".toList
    backrestFormat := 5
    backrestVersion := "2.35".toList
    backupArchiveStop := some "000000010000000000000002".toList
    backupInfoSize := 1
    backupPgId := 2
    backupPrior := some "20210707-104310F".toList
    backupReference := some ["20210707-104310F".toList]
    backupTimestampStop := 1625740000
    backupType := .incr
    optionOnline := true }]

theorem exampleBackup_valid : ValidInfoBackup exampleBackup where
  history := by
    rw [exampleBackup, List.forall_mem_cons, List.forall_mem_singleton]
    exact ⟨⟨by decide, by decide, by decide, by decide⟩, by decide, by decide, by decide, by decide⟩
  distinct := by decide
  current := by decide
  backup := by
    rw [exampleBackup, List.forall_mem_singleton]
    refine ⟨by decide, caught_of_not_mem (by decide) _, by decide, by decide, ?_, ?_, by decide,
      by decide, by decide, by decide, by decide, ?_, ?_, by decide, by decide⟩
    · intro text none'
      cases none'
    · rintro text ⟨⟩
      decide
    · rintro text ⟨⟩
      decide
    · rintro list ⟨⟩
      rw [List.forall_mem_singleton]
      decide

/-- The entry that the id of the current one stands for. -/
def exampleCurrent : InfoPgData := ⟨2, 18446744073709551615, 202107181, 140000⟩

/-- A buffer for the whole file. -/
def exampleSize : Nat :=
  (toBytes (infoText zeroHash none (infoBackupEntries false exampleBackup exampleCurrent))).length + 1

theorem infoBackupNewLoad_infoBackupSave_example :
    LoadsBack zeroHash (fun _ => .ok .null) none exampleBackup exampleSize true := by
  have isCurrent : infoPgDataCurrent exampleBackup.infoPg = .ok exampleCurrent := rfl
  have valid : ValidPgData exampleCurrent :=
    exampleBackup_valid.history _ (by decide)
  apply infoBackupNewLoad_infoBackupSave zeroHash _ none exampleBackup_valid
  · intro current isEntry
    rw [isCurrent] at isEntry
    cases isEntry
    decide
  · intro text saved
    rw [infoBackupSave_eq exampleBackup_valid isCurrent valid zeroHash none] at saved
    cases saved
    exact linesFit_whole _

end Loaded

end InfoBackupFile
