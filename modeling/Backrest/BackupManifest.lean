import Backrest.BackupCommon
import Backrest.Variants
import Backrest.Effects

/-!
# The backup manifest

The manifest of a backup lists its files with their checksums, sizes and owners.
A file that did not change since the prior backup refers to the backup that
stores it; `manifestBuildIncr` makes these references.
-/

namespace BackupManifest

open Text BackupCommon Variants Effects

inductive CompressType where
  | none
  | gz
  | lz4
  | zst
  | bz2
  | xz
  deriving DecidableEq, Repr

def compressExtStr : CompressType → Str
  | .none => []
  | .gz => ".gz".toList
  | .lz4 => ".lz4".toList
  | .zst => ".zst".toList
  | .bz2 => ".bz2".toList
  | .xz => ".xz".toList

def compressTypeFromName (name : Str) : CompressType :=
  match [CompressType.bz2, .gz, .lz4, .zst, .xz].find?
      (fun type => (compressExtStr type).isSuffixOf name) with
  | some type => type
  | none => .none

structure ManifestData where
  backrestVersion : Str := []
  backupLabel : Str := []
  backupLabelPrior : Option Str := none
  backupTimestampCopyStart : Int := 0
  backupTimestampStart : Int := 0
  backupTimestampStop : Int := 0
  backupType : BackupType := .full
  archiveStart : Option Str := none
  archiveStop : Option Str := none
  lsnStart : Option Str := none
  lsnStop : Option Str := none
  pgId : Nat := 0
  pgVersion : Nat := 0
  pgSystemId : Nat := 0
  pgCatalogVersion : Nat := 0
  backupOptionArchiveCheck : Bool := false
  backupOptionArchiveCopy : Bool := false
  backupOptionStandby : Variant := .null
  backupOptionBufferSize : Variant := .null
  backupOptionChecksumPage : Variant := .null
  backupOptionCompressType : CompressType := .none
  backupOptionCompressLevel : Variant := .null
  backupOptionCompressLevelNetwork : Variant := .null
  backupOptionDelta : Variant := .null
  backupOptionHardLink : Bool := false
  backupOptionOnline : Bool := false
  backupOptionProcessMax : Variant := .null

structure ManifestDb where
  name : Str
  id : Nat
  lastSystemId : Nat

structure ManifestFile where
  name : Str
  primary : Bool := false
  checksumPage : Bool := false
  checksumPageError : Bool := false
  mode : Nat := 0
  checksumSha1 : Str := []
  checksumPageErrorList : Option (List Variant) := none
  user : Option Str := none
  group : Option Str := none
  reference : Option Str := none
  size : Nat := 0
  sizeRepo : Nat := 0
  timestamp : Int := 0

structure ManifestLink where
  name : Str
  destination : Option Str
  user : Option Str
  group : Option Str

structure ManifestPath where
  name : Str
  mode : Nat
  user : Option Str
  group : Option Str

inductive ManifestTargetType where
  | path
  | link
  deriving DecidableEq, Repr

structure ManifestTarget where
  name : Str
  type : ManifestTargetType
  path : Option Str
  file : Option Str
  tablespaceId : Nat
  tablespaceName : Option Str

structure Manifest where
  data : ManifestData := {}
  dbList : List ManifestDb := []
  fileList : List ManifestFile := []
  linkList : List ManifestLink := []
  pathList : List ManifestPath := []
  targetList : List ManifestTarget := []

section Files

def manifestFileFindDefault (this : Manifest) (name : Str) : Option ManifestFile :=
  this.fileList.find? (fun file => file.name = name)

def manifestFileAdd (this : Manifest) (file : ManifestFile) : Manifest :=
  { this with fileList := this.fileList ++ [file] }

def fileFindError (name : Str) : Error :=
  ⟨.assertError, "unable to find '".toList ++ name ++ "' in manifest file list".toList⟩

def fileRemoveError (name : Str) : Error :=
  ⟨.assertError, "unable to remove '".toList ++ name ++ "' from manifest file list".toList⟩

def updateFirst (name : Str) (change : ManifestFile → ManifestFile) :
    List ManifestFile → List ManifestFile
  | [] => []
  | file :: rest =>
    if file.name = name then change file :: rest else file :: updateFirst name change rest

def manifestFileRemove (this : Manifest) (name : Str) : Except Error Manifest :=
  match manifestFileFindDefault this name with
  | none => .error (fileRemoveError name)
  | some _ => .ok { this with fileList := this.fileList.eraseP (fun file => file.name = name) }

/-- How `manifestFileUpdate` treats the reference: `NULL` keeps it, a variant sets it. -/
inductive ReferenceUpdate where
  | keep
  | set (reference : Option Str)

structure FileUpdate where
  size : Nat
  sizeRepo : Nat
  checksumSha1 : Option Str
  reference : ReferenceUpdate
  checksumPage : Bool
  checksumPageError : Bool
  checksumPageErrorList : Option (List Variant)

def fileUpdate (update : FileUpdate) (file : ManifestFile) : ManifestFile :=
  { file with
    reference := match update.reference with
      | .keep => file.reference
      | .set reference => reference
    checksumSha1 := update.checksumSha1.getD file.checksumSha1
    size := update.size
    sizeRepo := update.sizeRepo
    checksumPage := update.checksumPage
    checksumPageError := update.checksumPageError
    checksumPageErrorList := update.checksumPageErrorList }

def manifestFileUpdate (this : Manifest) (name : Str) (update : FileUpdate) :
    Except Error Manifest :=
  match manifestFileFindDefault this name with
  | none => .error (fileFindError name)
  | some _ => .ok { this with fileList := updateFirst name (fileUpdate update) this.fileList }

theorem find_updateFirst {name : Str} {change : ManifestFile → ManifestFile}
    (named : ∀ file, (change file).name = file.name) (other : Str) (fileList : List ManifestFile) :
    (updateFirst name change fileList).find? (fun file => file.name = other) =
      if other = name then (fileList.find? (fun file => file.name = other)).map change
      else fileList.find? (fun file => file.name = other) := by
  induction fileList with
  | nil => simp [updateFirst]
  | cons file rest ih =>
    rw [updateFirst]
    by_cases here : file.name = name
    · rw [if_pos here]
      by_cases same : other = name
      · subst same
        simp [here, named]
      · have differ : ¬ name = other := fun equal => same equal.symm
        simp [here, named, differ, same]
    · rw [if_neg here, List.find?_cons, List.find?_cons, ih]
      by_cases same : other = name
      · subst same
        simp [here]
      · simp only [if_neg same]

end Files

section BuildIncr

/-- A change between two manifests that timestamps alone would hide. -/
def fileAnomaly (file filePrior : ManifestFile) : Bool :=
  decide (file.timestamp < filePrior.timestamp) ||
    (decide (file.size ≠ filePrior.size) && decide (file.timestamp = filePrior.timestamp))

/-- The anomaly loop of `manifestBuildIncr`. -/
def anomalyFound (this manifestPrior : Manifest) : Bool :=
  this.fileList.any (fun file =>
    match manifestFileFindDefault manifestPrior file.name with
    | none => false
    | some filePrior => fileAnomaly file filePrior)

/-- Is delta to be enabled because the timeline or the online option changed? -/
def deltaSwitch (this manifestPrior : Manifest) (archiveStart : Option Str) : Bool :=
  (match archiveStart, manifestPrior.data.archiveStop with
    | some start, some stop => decide (strSubN start 0 8 ≠ strSubN stop 0 8)
    | _, _ => false) ||
  decide (manifestPrior.data.backupOptionOnline ≠ this.data.backupOptionOnline)

def filePriorUsable (delta : Bool) (file filePrior : ManifestFile) : Bool :=
  decide (file.size = filePrior.size) &&
    (delta || decide (file.size = 0) || decide (file.timestamp = filePrior.timestamp))

/-- The update `manifestBuildIncr` makes for a file found in the prior manifest. -/
def referenceUpdate (manifestPrior : Manifest) (file filePrior : ManifestFile) : FileUpdate where
  size := file.size
  sizeRepo := filePrior.sizeRepo
  checksumSha1 := some filePrior.checksumSha1
  reference := .set (some (filePrior.reference.getD manifestPrior.data.backupLabel))
  checksumPage := filePrior.checksumPage
  checksumPageError := filePrior.checksumPageError
  checksumPageErrorList := filePrior.checksumPageErrorList

/-- One round of the reference loop, at an index of the file list as it stands. -/
def buildIncrFile (manifestPrior : Manifest) (delta : Bool) (this : Manifest) (fileIdx : Nat) :
    Except Error Manifest := do
  let file ← lstGet this.fileList fileIdx
  match manifestFileFindDefault manifestPrior file.name with
  | none => .ok this
  | some filePrior =>
    if filePriorUsable delta file filePrior then
      manifestFileUpdate this file.name (referenceUpdate manifestPrior file filePrior)
    else .ok this

/-- The data of the new manifest, with delta enabled where the manifests ask for it. -/
def buildIncrData (this manifestPrior : Manifest) (type : BackupType)
    (archiveStart : Option Str) : Except Error ManifestData := do
  let data : ManifestData :=
    { this.data with
      backupLabelPrior := some manifestPrior.data.backupLabel
      backupType := type
      backupOptionDelta :=
        if deltaSwitch this manifestPrior archiveStart then .bool true
        else this.data.backupOptionDelta }
  if !(← varBool data.backupOptionDelta) && anomalyFound this manifestPrior then
    return { data with backupOptionDelta := .bool true }
  else
    return data

/-- `manifestBuildIncr`: compare with the prior manifest and refer to its files. -/
def manifestBuildIncr (this manifestPrior : Manifest) (type : BackupType)
    (archiveStart : Option Str) : Except Error Manifest := do
  let data ← buildIncrData this manifestPrior type archiveStart
  let delta ← varBool data.backupOptionDelta
  (List.range this.fileList.length).foldlM (buildIncrFile manifestPrior delta)
    { this with data := data }

end BuildIncr

section References

/-- The references a manifest makes to other backups. -/
def fileReferences (this : Manifest) : List Str := this.fileList.filterMap (·.reference)

/-- Every reference of the manifest is among those `P` allows. -/
def RefersWithin (P : Str → Prop) (this : Manifest) : Prop := ∀ r ∈ fileReferences this, P r

variable {this this' manifestPrior : Manifest} {P : Str → Prop} {name : Str}

theorem refersWithin_iff :
    RefersWithin P this ↔ ∀ file ∈ this.fileList, ∀ r, file.reference = some r → P r := by
  constructor
  · intro h file hf r hr
    exact h r (List.mem_filterMap.mpr ⟨file, hf, hr⟩)
  · intro h r hr
    obtain ⟨file, hf, hr⟩ := List.mem_filterMap.mp hr
    exact h file hf r hr

theorem mem_updateFirst {change : ManifestFile → ManifestFile} {files : List ManifestFile}
    {file : ManifestFile} (h : file ∈ updateFirst name change files) :
    file ∈ files ∨ ∃ old ∈ files, file = change old := by
  induction files with
  | nil => cases h
  | cons head rest ih =>
    rw [updateFirst] at h
    split at h
    · rcases List.mem_cons.mp h with rfl | h
      · exact Or.inr ⟨head, List.mem_cons_self, rfl⟩
      · exact Or.inl (List.mem_cons_of_mem head h)
    · rcases List.mem_cons.mp h with rfl | h
      · exact Or.inl List.mem_cons_self
      · rcases ih h with old | ⟨old, ho, he⟩
        · exact Or.inl (List.mem_cons_of_mem head old)
        · exact Or.inr ⟨old, List.mem_cons_of_mem head ho, he⟩

/-- An update adds at most the reference it sets, and changes nothing but the file list. -/
theorem manifestFileUpdate_refersWithin {update : FileUpdate} (within : RefersWithin P this)
    (allowed : ∀ r, update.reference = .set (some r) → P r)
    (done : manifestFileUpdate this name update = .ok this') :
    RefersWithin P this' ∧ this'.data = this.data := by
  rw [refersWithin_iff] at within
  rw [manifestFileUpdate] at done
  split at done
  · cases done
  · cases done
    refine ⟨refersWithin_iff.mpr ?_, rfl⟩
    intro file hf r hr
    rcases mem_updateFirst hf with old | ⟨old, ho, rfl⟩
    · exact within file old r hr
    · cases hu : update.reference with
      | keep =>
        rw [fileUpdate, hu] at hr
        exact within old ho r hr
      | set reference =>
        rw [fileUpdate, hu] at hr
        exact allowed r (hu.trans (congrArg ReferenceUpdate.set hr))

theorem manifestFileRemove_refersWithin (within : RefersWithin P this)
    (done : manifestFileRemove this name = .ok this') :
    RefersWithin P this' ∧ this'.data = this.data := by
  rw [refersWithin_iff] at within
  rw [manifestFileRemove] at done
  split at done
  · cases done
  · cases done
    exact ⟨refersWithin_iff.mpr (fun file hf => within file (List.mem_of_mem_eraseP hf)), rfl⟩

/-- The references a manifest may take over from a prior one. -/
def PriorReference (manifestPrior : Manifest) (r : Str) : Prop :=
  r = manifestPrior.data.backupLabel ∨ r ∈ fileReferences manifestPrior

theorem buildIncrFile_refersWithin {delta : Bool} {fileIdx : Nat}
    (within : RefersWithin (PriorReference manifestPrior) this)
    (done : buildIncrFile manifestPrior delta this fileIdx = .ok this') :
    RefersWithin (PriorReference manifestPrior) this' ∧ this'.data = this.data := by
  obtain ⟨file, _, rest⟩ := except_bind_ok done
  cases hp : manifestFileFindDefault manifestPrior file.name with
  | none =>
    rw [hp] at rest
    cases rest
    exact ⟨within, rfl⟩
  | some filePrior =>
    rw [hp] at rest
    have found : filePrior ∈ manifestPrior.fileList := List.mem_of_find?_eq_some hp
    by_cases usable : filePriorUsable delta file filePrior = true
    · simp only [usable, if_true] at rest
      refine manifestFileUpdate_refersWithin within ?_ rest
      intro r hr
      injection hr with hr
      have hr : filePrior.reference.getD manifestPrior.data.backupLabel = r := Option.some.inj hr
      cases href : filePrior.reference with
      | none =>
        rw [href] at hr
        exact Or.inl hr.symm
      | some own =>
        rw [href] at hr
        exact Or.inr (List.mem_filterMap.mpr ⟨filePrior, found, href.trans (congrArg some hr)⟩)
    · simp only [usable] at rest
      cases rest
      exact ⟨within, rfl⟩

theorem buildIncrData_spec {type : BackupType} {archiveStart : Option Str} {data : ManifestData}
    (done : buildIncrData this manifestPrior type archiveStart = .ok data) :
    data.backupLabelPrior = some manifestPrior.data.backupLabel ∧ data.backupType = type := by
  obtain ⟨delta, _, rest⟩ := except_bind_ok done
  split at rest
  · cases rest
    exact ⟨rfl, rfl⟩
  · cases rest
    exact ⟨rfl, rfl⟩

theorem manifestBuildIncr_spec {type : BackupType} {archiveStart : Option Str}
    (new : ∀ file ∈ this.fileList, file.reference = none)
    (done : manifestBuildIncr this manifestPrior type archiveStart = .ok this') :
    RefersWithin (PriorReference manifestPrior) this' ∧
      this'.data.backupLabelPrior = some manifestPrior.data.backupLabel ∧
      this'.data.backupType = type := by
  obtain ⟨data, hdata, rest⟩ := except_bind_ok done
  obtain ⟨delta, _, run⟩ := except_bind_ok rest
  have start : RefersWithin (PriorReference manifestPrior) { this with data := data } := by
    refine refersWithin_iff.mpr (fun file hf r hr => ?_)
    rw [new file hf] at hr
    cases hr
  have loop : RefersWithin (PriorReference manifestPrior) this' ∧ this'.data = data := by
    refine except_foldlM_ok
      (P := fun m => RefersWithin (PriorReference manifestPrior) m ∧ m.data = data)
      ?_ ⟨start, rfl⟩ run
    intro m m' fileIdx _ hm step
    obtain ⟨within, same⟩ := buildIncrFile_refersWithin hm.1 step
    exact ⟨within, same.trans hm.2⟩
  rw [loop.2]
  exact ⟨loop.1, buildIncrData_spec hdata⟩

end References

end BackupManifest
