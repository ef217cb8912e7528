import Backrest.BackupManifest
import Backrest.KeyedList

/-!
# References to the prior backup

`manifestBuildIncr` goes over the files of a new manifest by index and updates
them by name. With distinct names that is one function applied to each file. The
delta option decides which files may be referenced, and it is settled before the
first file is looked at: by the option itself, by a change of the timeline or of
the online option, or by one file whose timestamp cannot be trusted.
-/

namespace BuildIncr

open Text BackupCommon Variants BackupManifest

section Loop
variable {this manifestPrior : Manifest}

/-- The delta option that a run ends with. -/
def deltaEnabled (this manifestPrior : Manifest) (archiveStart : Option Str) (delta : Bool) : Bool :=
  deltaSwitch this manifestPrior archiveStart || delta || anomalyFound this manifestPrior

theorem buildIncrData_eq (type : BackupType) (archiveStart : Option Str) {delta : Bool}
    (option : this.data.backupOptionDelta = .bool delta) :
    buildIncrData this manifestPrior type archiveStart = .ok
      { this.data with
        backupLabelPrior := some manifestPrior.data.backupLabel
        backupType := type
        backupOptionDelta := .bool (deltaEnabled this manifestPrior archiveStart delta) } := by
  rw [buildIncrData, deltaEnabled, option]
  cases deltaSwitch this manifestPrior archiveStart <;> cases delta <;>
    cases anomalyFound this manifestPrior <;> rfl

/-- What the reference loop makes of one file. -/
def incrFile (manifestPrior : Manifest) (delta : Bool) (file : ManifestFile) : ManifestFile :=
  match manifestFileFindDefault manifestPrior file.name with
  | none => file
  | some filePrior =>
    if filePriorUsable delta file filePrior then
      fileUpdate (referenceUpdate manifestPrior file filePrior) file
    else file

@[simp]
theorem incrFile_name (delta : Bool) (file : ManifestFile) :
    (incrFile manifestPrior delta file).name = file.name := by
  rw [incrFile]
  split
  · rfl
  · split <;> rfl

@[simp]
theorem incrFile_size (delta : Bool) (file : ManifestFile) :
    (incrFile manifestPrior delta file).size = file.size := by
  rw [incrFile]
  split
  · rfl
  · split <;> rfl

@[simp]
theorem incrFile_timestamp (delta : Bool) (file : ManifestFile) :
    (incrFile manifestPrior delta file).timestamp = file.timestamp := by
  rw [incrFile]
  split
  · rfl
  · split <;> rfl

theorem updateFirst_append {before rest : List ManifestFile} {file : ManifestFile}
    (change : ManifestFile → ManifestFile) (fresh : ∀ f ∈ before, f.name ≠ file.name) :
    updateFirst file.name change (before ++ file :: rest) = before ++ change file :: rest := by
  induction before with
  | nil => rw [List.nil_append, updateFirst, if_pos rfl, List.nil_append]
  | cons f before ih =>
    rw [List.cons_append, updateFirst, if_neg (fresh f List.mem_cons_self),
      ih (fun g hg => fresh g (List.mem_cons_of_mem f hg)), List.cons_append]

/-- A round takes the file at its index and changes nothing else. -/
theorem buildIncrFile_eq {before rest : List ManifestFile} {file : ManifestFile} (delta : Bool)
    (files : this.fileList = before ++ file :: rest)
    (fresh : ∀ f ∈ before, f.name ≠ file.name) :
    buildIncrFile manifestPrior delta this before.length = .ok
      { this with fileList := before ++ incrFile manifestPrior delta file :: rest } := by
  have get : lstGet this.fileList before.length = .ok file := by
    rw [lstGet, files]
    simp
  have found : ∃ f, manifestFileFindDefault this file.name = some f := by
    refine Option.isSome_iff_exists.mp (List.find?_isSome.mpr ⟨file, ?_, by simp⟩)
    rw [files]
    simp
  obtain ⟨f, found⟩ := found
  have same : this = { this with fileList := before ++ file :: rest } := by
    rw [← files]
  rw [buildIncrFile, get, incrFile]
  change (match manifestFileFindDefault manifestPrior file.name with
    | none => _
    | some filePrior => _) = _
  cases manifestFileFindDefault manifestPrior file.name with
  | none => exact congrArg Except.ok same
  | some filePrior =>
    dsimp only
    by_cases usable : filePriorUsable delta file filePrior = true
    · rw [if_pos usable, if_pos usable, manifestFileUpdate, found, files]
      dsimp only
      rw [updateFirst_append _ fresh]
    · rw [if_neg usable, if_neg usable]
      exact congrArg Except.ok same

/-- The whole loop: what stands before the index is done. -/
theorem buildIncrFile_foldlM (delta : Bool) (rest : List ManifestFile) :
    ∀ (before : List ManifestFile) (this : Manifest), this.fileList = before ++ rest →
      ((before ++ rest).map (·.name)).Nodup →
      (List.range' before.length rest.length).foldlM (buildIncrFile manifestPrior delta) this =
        .ok { this with fileList := before ++ rest.map (incrFile manifestPrior delta) } := by
  induction rest with
  | nil =>
    intro before this files _
    have same : this = { this with fileList := before ++ [] } := by
      rw [← files]
    exact congrArg Except.ok same
  | cons file rest ih =>
    intro before this files distinct
    have fresh : ∀ f ∈ before, f.name ≠ file.name := by
      intro f hf
      rw [List.map_append, List.nodup_append] at distinct
      exact distinct.2.2 f.name (List.mem_map_of_mem hf) file.name (by simp)
    rw [List.length_cons, List.range'_succ, List.foldlM_cons,
      buildIncrFile_eq delta files fresh]
    have next := ih (before ++ [incrFile manifestPrior delta file])
      { this with fileList := before ++ incrFile manifestPrior delta file :: rest } (by simp)
      (by simpa using distinct)
    rw [List.length_append, List.length_singleton] at next
    change (List.range' (before.length + 1) rest.length).foldlM _ _ = _
    rw [next]
    simp

/-- The manifest that a run ends with. -/
theorem manifestBuildIncr_eq (type : BackupType) (archiveStart : Option Str) {delta : Bool}
    (option : this.data.backupOptionDelta = .bool delta)
    (distinct : (this.fileList.map (·.name)).Nodup) :
    manifestBuildIncr this manifestPrior type archiveStart = .ok
      { this with
        data := { this.data with
          backupLabelPrior := some manifestPrior.data.backupLabel
          backupType := type
          backupOptionDelta := .bool (deltaEnabled this manifestPrior archiveStart delta) }
        fileList := this.fileList.map
          (incrFile manifestPrior (deltaEnabled this manifestPrior archiveStart delta)) } := by
  rw [manifestBuildIncr, buildIncrData_eq type archiveStart option]
  change (List.range this.fileList.length).foldlM _ _ = _
  rw [List.range_eq_range']
  exact buildIncrFile_foldlM _ this.fileList [] _ rfl distinct

end Loop

section References
variable {this manifestPrior : Manifest}

structure Referable (manifestPrior : Manifest) (delta : Bool) (file filePrior : ManifestFile) :
    Prop where
  listed : filePrior ∈ manifestPrior.fileList
  name : filePrior.name = file.name
  size : file.size = filePrior.size
  trusted : delta = true ∨ file.size = 0 ∨ file.timestamp = filePrior.timestamp

theorem find_eq_some_iff (distinct : (manifestPrior.fileList.map (·.name)).Nodup) {name : Str}
    {filePrior : ManifestFile} : manifestFileFindDefault manifestPrior name = some filePrior ↔
      filePrior ∈ manifestPrior.fileList ∧ filePrior.name = name :=
  KeyedList.find_iff distinct

theorem filePriorUsable_iff {delta : Bool} {file filePrior : ManifestFile} :
    filePriorUsable delta file filePrior = true ↔ file.size = filePrior.size ∧
      (delta = true ∨ file.size = 0 ∨ file.timestamp = filePrior.timestamp) := by
  simp [filePriorUsable, or_assoc]

theorem incrFile_reference (distinct : (manifestPrior.fileList.map (·.name)).Nodup)
    {file : ManifestFile} (new : file.reference = none) (delta : Bool) (r : Str) :
    (incrFile manifestPrior delta file).reference = some r ↔
      ∃ filePrior, Referable manifestPrior delta file filePrior ∧
        r = filePrior.reference.getD manifestPrior.data.backupLabel := by
  rw [incrFile]
  cases found : manifestFileFindDefault manifestPrior file.name with
  | none =>
    constructor
    · intro own
      rw [new] at own
      cases own
    · rintro ⟨filePrior, referable, -⟩
      rw [(find_eq_some_iff distinct).mpr ⟨referable.listed, referable.name⟩] at found
      cases found
  | some filePrior =>
    obtain ⟨listed, name⟩ := (find_eq_some_iff distinct).mp found
    have only : ∀ other, Referable manifestPrior delta file other → other = filePrior := by
      intro other referable
      have same := (find_eq_some_iff distinct).mpr ⟨referable.listed, referable.name⟩
      rw [found] at same
      exact (Option.some.inj same).symm
    dsimp only
    by_cases usable : filePriorUsable delta file filePrior = true
    · obtain ⟨size, trusted⟩ := filePriorUsable_iff.mp usable
      have set : (fileUpdate (referenceUpdate manifestPrior file filePrior) file).reference =
          some (filePrior.reference.getD manifestPrior.data.backupLabel) := rfl
      rw [if_pos usable, set, Option.some.injEq]
      constructor
      · intro same
        exact ⟨filePrior, ⟨listed, name, size, trusted⟩, same.symm⟩
      · rintro ⟨other, referable, rfl⟩
        rw [only other referable]
    · rw [if_neg usable, new]
      constructor
      · intro none
        cases none
      · rintro ⟨other, referable, -⟩
        have same := only other referable
        subst same
        exact absurd (filePriorUsable_iff.mpr ⟨referable.size, referable.trusted⟩) usable

/-- The timelines agree where both are known. -/
def TimelinesAgree (archiveStart archiveStop : Option Str) : Prop :=
  ∀ start ∈ archiveStart, ∀ stop ∈ archiveStop, strSubN start 0 8 = strSubN stop 0 8

/-- What can be relied on when delta stays off. -/
structure Trusted (this manifestPrior : Manifest) (archiveStart : Option Str) : Prop where
  timeline : TimelinesAgree archiveStart manifestPrior.data.archiveStop
  online : manifestPrior.data.backupOptionOnline = this.data.backupOptionOnline
  timestamp : ∀ file ∈ this.fileList, ∀ filePrior ∈ manifestPrior.fileList,
    filePrior.name = file.name → filePrior.timestamp ≤ file.timestamp ∧
      (file.timestamp = filePrior.timestamp → file.size = filePrior.size)

theorem trusted_of_deltaEnabled (distinct : (manifestPrior.fileList.map (·.name)).Nodup)
    {archiveStart : Option Str} {delta : Bool}
    (off : deltaEnabled this manifestPrior archiveStart delta = false) :
    Trusted this manifestPrior archiveStart := by
  simp only [deltaEnabled, deltaSwitch, Bool.or_eq_false_iff, decide_eq_false_iff_not,
    not_not] at off
  obtain ⟨⟨⟨timeline, online⟩, -⟩, anomaly⟩ := off
  refine ⟨?_, online, ?_⟩
  · intro start hstart stop hstop
    rw [Option.mem_def.mp hstart, Option.mem_def.mp hstop] at timeline
    simpa using timeline
  · intro file hf filePrior listed name
    rw [anomalyFound, List.any_eq_false] at anomaly
    have none := anomaly file hf
    rw [(find_eq_some_iff distinct).mpr ⟨listed, name⟩] at none
    simp only [fileAnomaly, Bool.or_eq_true, Bool.and_eq_true, decide_eq_true_eq, not_or, not_lt,
      not_and] at none
    refine ⟨none.1, fun same => ?_⟩
    by_contra differs
    exact none.2 differs same

/-- After `manifestBuildIncr` the references are those the final delta option allows, and delta is
off only when timestamps can be trusted. -/
theorem manifestBuildIncr_references {delta : Bool}
    (option : this.data.backupOptionDelta = .bool delta)
    (new : ∀ file ∈ this.fileList, file.reference = none)
    (distinct : (this.fileList.map (·.name)).Nodup)
    (distinctPrior : (manifestPrior.fileList.map (·.name)).Nodup) (type : BackupType)
    (archiveStart : Option Str) :
    ∃ this' delta', manifestBuildIncr this manifestPrior type archiveStart = .ok this' ∧
      this'.data.backupOptionDelta = .bool delta' ∧
      (this'.fileList.map (fun file => (file.name, file.size, file.timestamp)) =
        this.fileList.map (fun file => (file.name, file.size, file.timestamp))) ∧
      (∀ file ∈ this'.fileList, file.reference.isSome ↔
        ∃ filePrior, Referable manifestPrior delta' file filePrior) ∧
      (∀ file ∈ this'.fileList, ∀ r ∈ file.reference,
        ∃ filePrior, Referable manifestPrior delta' file filePrior ∧
          r = filePrior.reference.getD manifestPrior.data.backupLabel) ∧
      (delta' = false → Trusted this' manifestPrior archiveStart) := by
  refine ⟨_, _, manifestBuildIncr_eq type archiveStart option distinct, rfl, ?_, ?_, ?_, ?_⟩
  · simp
  · intro file hf
    obtain ⟨old, hold, rfl⟩ := List.mem_map.mp hf
    have reference := incrFile_reference distinctPrior (new old hold)
      (deltaEnabled this manifestPrior archiveStart delta)
    rw [Option.isSome_iff_exists]
    constructor
    · rintro ⟨r, hr⟩
      obtain ⟨filePrior, referable, -⟩ := (reference r).mp hr
      exact ⟨filePrior, referable.listed, by simp [referable.name], by simp [referable.size],
        by simpa using referable.trusted⟩
    · rintro ⟨filePrior, referable⟩
      refine ⟨_, (reference _).mpr ⟨filePrior, ⟨referable.listed, ?_, ?_, ?_⟩, rfl⟩⟩
      · simpa using referable.name
      · simpa using referable.size
      · simpa using referable.trusted
  · intro file hf r hr
    obtain ⟨old, hold, rfl⟩ := List.mem_map.mp hf
    obtain ⟨filePrior, referable, rfl⟩ := (incrFile_reference distinctPrior (new old hold)
      (deltaEnabled this manifestPrior archiveStart delta) r).mp hr
    exact ⟨filePrior, ⟨referable.listed, by simp [referable.name], by simp [referable.size],
      by simpa using referable.trusted⟩, rfl⟩
  · intro off
    have trusted := trusted_of_deltaEnabled distinctPrior off
    refine ⟨trusted.timeline, trusted.online, fun file hf filePrior listed name => ?_⟩
    obtain ⟨old, hold, rfl⟩ := List.mem_map.mp hf
    simpa using trusted.timestamp old hold filePrior listed (by simpa using name)

/-- One file is unchanged since the prior backup, one is new and one has changed. -/
def incrManifest : Manifest where
  data := { backupOptionDelta := .bool false }
  fileList := [{ name := "pg_data/a".toList, size := 1, timestamp := 5 },
    { name := "pg_data/b".toList, size := 1, timestamp := 5 },
    { name := "pg_data/c".toList, size := 2, timestamp := 7 }]

def incrPrior : Manifest where
  data := { backupLabel := "20200101-000000F".toList }
  fileList := [{ name := "pg_data/a".toList, size := 1, timestamp := 5 },
    { name := "pg_data/c".toList, size := 1, timestamp := 5 }]

theorem manifestBuildIncr_references_unchanged :
    ∃ this' delta', manifestBuildIncr incrManifest incrPrior .incr none = .ok this' ∧
      this'.data.backupOptionDelta = .bool delta' ∧
      (∀ file ∈ this'.fileList, file.reference.isSome ↔
        ∃ filePrior, Referable incrPrior delta' file filePrior) := by
  obtain ⟨this', delta', run, option, -, referenced, -⟩ :=
    manifestBuildIncr_references (show incrManifest.data.backupOptionDelta = .bool false from rfl)
      (by decide) (by decide) (show (incrPrior.fileList.map (·.name)).Nodup by decide) .incr none
  exact ⟨this', delta', run, option, referenced⟩

end References

end BuildIncr
