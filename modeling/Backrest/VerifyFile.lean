import Backrest.Verify

/-!
# What becomes of one file of a backup

A file of a manifest is passed by a job, or by the result of the backup that it
references. The key of a job gives back the backup it belongs to, because a
label has no slash.
-/

namespace VerifyRun

open Text BackupCommon BackupManifest BackupInfo FileTree Repository Verify

section Keys

theorem slash_not_mem_of_matchN {n : Nat} {s rest : Str} (h : matchN isDigit n s = some rest)
    (later : '/' ∉ rest) : '/' ∉ s := by
  obtain ⟨matched, rfl, -, all⟩ := matchN_some h
  intro mem
  rcases List.mem_append.mp mem with here | mem
  · exact absurd (all _ here) (by decide)
  · exact later mem

theorem slash_not_mem_of_matchChar {c : Char} {s rest : Str} (h : matchChar c s = some rest)
    (plain : c ≠ '/') (later : '/' ∉ rest) : '/' ∉ s := by
  cases s with
  | nil => cases h
  | cons d s =>
    rw [matchChar] at h
    split at h
    · rename_i same
      cases h
      rw [List.mem_cons, not_or]
      exact ⟨fun slash => plain (same.trans slash.symm), later⟩
    · cases h

theorem slash_not_mem_of_matchDateTime {s rest : Str} (h : matchDateTime s = some rest)
    (later : '/' ∉ rest) : '/' ∉ s := by
  obtain ⟨t, first, h⟩ := Option.bind_eq_some_iff.mp h
  obtain ⟨u, dash, h⟩ := Option.bind_eq_some_iff.mp h
  exact slash_not_mem_of_matchN first
    (slash_not_mem_of_matchChar dash (by decide) (slash_not_mem_of_matchN h later))

/-- A label has no slash, so it is the first part of a key. -/
theorem slash_not_mem_of_labelAny {label : Str} (h : labelAny label = true) : '/' ∉ label := by
  rw [labelAny, backupRegExp, decide_eq_true_eq, backupRegExpRest] at h
  cases hm : matchDateTime label >>= matchChar 'F' with
  | none =>
    rw [hm] at h
    cases h
  | some rest =>
    obtain ⟨t, date, full⟩ := Option.bind_eq_some_iff.mp hm
    have plain : '/' ∉ rest := by
      rw [hm] at h
      simp only [Bool.or_self, ↓reduceIte, List.mem_append, List.mem_singleton,
        Option.mem_toList] at h
      rcases h with dependent | rfl
      · obtain ⟨u, under, dependent⟩ := Option.bind_eq_some_iff.mp dependent
        obtain ⟨v, dateTime, dependent⟩ := Option.bind_eq_some_iff.mp dependent
        refine slash_not_mem_of_matchChar under (by decide)
          (slash_not_mem_of_matchDateTime dateTime ?_)
        cases v with
        | nil => cases dependent
        | cons c v =>
          simp only [Bool.and_self, ↓reduceIte, Bool.or_eq_true, decide_eq_true_eq,
            Option.ite_none_right_eq_some, Option.some.injEq] at dependent
          obtain ⟨rfl | rfl, rfl⟩ := dependent <;> decide
      · exact List.not_mem_nil
    exact slash_not_mem_of_matchDateTime date
      (slash_not_mem_of_matchChar full (by decide) plain)

theorem keySplit_key {resultId fileType fileName : Str} (plain : '/' ∉ resultId)
    (plainType : '/' ∉ fileType) :
    keySplit (resultId ++ '/' :: (fileType ++ '/' :: fileName)) = (resultId, fileType, fileName) := by
  rw [keySplit, strLstNewSplit_append plain, strLstNewSplit_append plainType]
  change (resultId, fileType, strLstJoin (strLstNewSplit '/' fileName) ['/']) = _
  rw [strLstJoin_split '/']

theorem keySplit_fileJob {label : Str} (plain : '/' ∉ label) (fileName : Str) (file : ManifestFile) :
    keySplit (fileJob label fileName file).key = (label, storageRepoBackup, fileName) :=
  keySplit_key plain (by decide)

theorem keySplit_archiveJob (file : ArchiveFile) :
    ∃ fileName, keySplit (archiveJob file).key = (file.archiveId, storageRepoArchive, fileName) := by
  have plainType : '/' ∉ storageRepoArchive := by decide
  exact ⟨_, keySplit_key file.plain plainType⟩

end Keys

section Tracked

def storedName (label : Str) (manifest : Manifest) (file : ManifestFile) : Str :=
  repoFileName (file.reference.getD label) manifest file

/-- A check was made or is out. -/
def Reached (jobs : List Job) (checked : List FileCheck) (check : FileCheck) : Prop :=
  check ∈ checked ∨ ∃ job ∈ jobs, job.check = check

def Passed (outcome : Outcome) (jobs : List Job) (checked : List FileCheck)
    (result : VerifyBackupResult) (name : Str) (file : ManifestFile) : Prop :=
  fileJob result.backupLabel name file ∈ jobs ∨
    Reached jobs checked (fileCheck name file) ∧
      (outcome (fileCheck name file) = .ok .verifyOk ∨
        result.status = .backupInvalid ∧ name ∈ result.invalidFileList.map (·.fileName))

structure Tracked (manifestOf : Str → Option Manifest) (outcome : Outcome) (jobs : List Job)
    (checked : List FileCheck) (result : VerifyBackupResult) : Prop where
  unusable : manifestOf result.backupLabel = none →
    result.status ≠ .backupValid ∧ result.fileVerifyComplete = false
  total : ∀ manifest, manifestOf result.backupLabel = some manifest →
    result.totalFileManifest = manifest.fileList.length
  complete : result.fileVerifyComplete = true → result.totalFileVerify = result.totalFileManifest
  passed : ∀ manifest, manifestOf result.backupLabel = some manifest →
    ∀ file ∈ manifest.fileList.take result.totalFileVerify,
      Passed outcome jobs checked result (storedName result.backupLabel manifest file) file

/-- A change of a result that takes back nothing that was found. -/
structure Grows (result result' : VerifyBackupResult) : Prop where
  label : result'.backupLabel = result.backupLabel
  total : result'.totalFileManifest = result.totalFileManifest
  verify : result'.totalFileVerify = result.totalFileVerify
  notValid : result.status ≠ .backupValid → result'.status ≠ .backupValid
  invalid : result.status = .backupInvalid → result'.status = .backupInvalid
  names : ∀ name ∈ result.invalidFileList.map (·.fileName),
    name ∈ result'.invalidFileList.map (·.fileName)

variable {manifestOf : Str → Option Manifest} {outcome : Outcome} {jobs jobs' : List Job}
  {checked checked' : List FileCheck} {result result' : VerifyBackupResult} {name : Str}
  {file : ManifestFile}

theorem Grows.refl (result : VerifyBackupResult) : Grows result result :=
  ⟨rfl, rfl, rfl, id, id, fun _ => id⟩

theorem grows_invalid (result : VerifyBackupResult) (reason : VerifyResult) (fileName : Str) :
    Grows result (verifyInvalidFileAdd result reason fileName) := by
  refine ⟨rfl, rfl, rfl, fun _ => VerifyBackupResultStatus.noConfusion, fun _ => rfl, ?_⟩
  intro name h
  rw [verifyInvalidFileAdd, List.map_append]
  exact List.mem_append_left _ h

theorem grows_valid (result : VerifyBackupResult) :
    Grows result { result with totalFileValid := result.totalFileValid + 1 } :=
  ⟨rfl, rfl, rfl, id, id, fun _ => id⟩

theorem grows_fileResult (result : VerifyBackupResult) (fileName : Str)
    (found : Except Error VerifyResult) : Grows result (verifyFileResult result fileName found) := by
  cases found with
  | error e => exact grows_invalid result _ fileName
  | ok reason =>
    cases reason with
    | verifyOk => exact grows_valid result
    | _ => exact grows_invalid result _ fileName

theorem mem_invalid_add (result : VerifyBackupResult) (reason : VerifyResult) (fileName : Str) :
    (verifyInvalidFileAdd result reason fileName).status = .backupInvalid ∧
      fileName ∈ (verifyInvalidFileAdd result reason fileName).invalidFileList.map (·.fileName) := by
  refine ⟨rfl, ?_⟩
  rw [verifyInvalidFileAdd, List.map_append]
  exact List.mem_append_right _ List.mem_cons_self

theorem fileResult_decides (result : VerifyBackupResult) (fileName : Str)
    (found : Except Error VerifyResult) :
    found = .ok .verifyOk ∨ (verifyFileResult result fileName found).status = .backupInvalid ∧
      fileName ∈ (verifyFileResult result fileName found).invalidFileList.map (·.fileName) := by
  cases found with
  | error e => exact Or.inr (mem_invalid_add result _ fileName)
  | ok reason =>
    cases reason with
    | verifyOk => exact Or.inl rfl
    | _ => exact Or.inr (mem_invalid_add result _ fileName)

theorem Reached.mono {check : FileCheck} (reached : Reached jobs checked check) (more : List Job) :
    Reached (jobs ++ more) checked check := by
  rcases reached with done | ⟨job, mem, same⟩
  · exact Or.inl done
  · exact Or.inr ⟨job, List.mem_append_left _ mem, same⟩

theorem Passed.grows (passed : Passed outcome jobs checked result name file)
    (grows : Grows result result') : Passed outcome jobs checked result' name file := by
  rcases passed with out | ⟨reached, ok | ⟨invalid, mem⟩⟩
  · left
    rwa [grows.label]
  · exact Or.inr ⟨reached, Or.inl ok⟩
  · exact Or.inr ⟨reached, Or.inr ⟨grows.invalid invalid, grows.names name mem⟩⟩

theorem Passed.mono (passed : Passed outcome jobs checked result name file) (more : List Job) :
    Passed outcome (jobs ++ more) checked result name file := by
  rcases passed with out | ⟨reached, decided⟩
  · exact Or.inl (List.mem_append_left _ out)
  · exact Or.inr ⟨reached.mono more, decided⟩

theorem Tracked.mono (tracked : Tracked manifestOf outcome jobs checked result) (more : List Job) :
    Tracked manifestOf outcome (jobs ++ more) checked result :=
  { tracked with
    passed := fun manifest h file mem => (tracked.passed manifest h file mem).mono more }

end Tracked

section File
variable {manifestOf : Str → Option Manifest} {outcome : Outcome} {jobs : List Job}
  {checked : List FileCheck}

/-- A reference names a file that the backup it points to stores itself. -/
def ReferencesStored (manifestOf : Str → Option Manifest) : Prop :=
  ∀ label manifest file reference prior, manifestOf label = some manifest →
    file ∈ manifest.fileList → file.reference = some reference →
    manifestOf reference = some prior → ∃ stored ∈ prior.fileList,
      stored.reference = none ∧ repoFileName reference prior stored = repoFileName reference manifest file ∧
      stored.checksumSha1 = file.checksumSha1 ∧ stored.size = file.size

/-- No check that fails is out for a backup that is already marked complete. -/
def Settled (outcome : Outcome) (jobs : List Job) (results : List VerifyBackupResult) : Prop :=
  ∀ job ∈ jobs, ∀ result ∈ results, result.fileVerifyComplete = true →
    (keySplit job.key).1 = result.backupLabel → outcome job.check = .ok .verifyOk

/-- All files of a backup with a usable manifest were passed. -/
def Ended (manifestOf : Str → Option Manifest) (result : VerifyBackupResult) : Prop :=
  ∀ manifest, manifestOf result.backupLabel = some manifest →
    result.totalFileVerify = manifest.fileList.length

theorem stored_decided {prior : VerifyBackupResult} {manifest : Manifest} {stored : ManifestFile}
    (tracked : Tracked manifestOf outcome jobs checked prior) (plain : '/' ∉ prior.backupLabel)
    (settled : ∀ job ∈ jobs, (keySplit job.key).1 = prior.backupLabel →
      outcome job.check = .ok .verifyOk)
    (complete : prior.fileVerifyComplete = true)
    (usable : manifestOf prior.backupLabel = some manifest) (mem : stored ∈ manifest.fileList) :
    Reached jobs checked (fileCheck (storedName prior.backupLabel manifest stored) stored) ∧
      (outcome (fileCheck (storedName prior.backupLabel manifest stored) stored) = .ok .verifyOk ∨
        storedName prior.backupLabel manifest stored ∈ prior.invalidFileList.map (·.fileName)) := by
  have all : manifest.fileList.take prior.totalFileVerify = manifest.fileList := by
    rw [tracked.complete complete, tracked.total manifest usable, List.take_length]
  have passed := tracked.passed manifest usable stored (by rwa [all])
  rcases passed with out | ⟨reached, ok | ⟨-, listed⟩⟩
  · refine ⟨Or.inr ⟨_, out, rfl⟩, Or.inl (settled _ out ?_)⟩
    rw [keySplit_fileJob plain]
  · exact ⟨reached, Or.inl ok⟩
  · exact ⟨reached, Or.inr listed⟩

theorem verifyBackupFile_spec (references : ReferencesStored manifestOf)
    {results : List VerifyBackupResult} {result : VerifyBackupResult} {manifest : Manifest}
    {file : ManifestFile}
    (tracked : ∀ prior ∈ results, prior.fileVerifyComplete = true →
      Tracked manifestOf outcome jobs checked prior)
    (plain : ∀ prior ∈ results, '/' ∉ prior.backupLabel)
    (settled : Settled outcome jobs results)
    (usable : manifestOf result.backupLabel = some manifest) (mem : file ∈ manifest.fileList) :
    Grows result (verifyBackupFile results result manifest file).2 ∧
      (verifyBackupFile results result manifest file).2.fileVerifyComplete =
        result.fileVerifyComplete ∧
      Passed outcome
        (jobs ++ ((verifyBackupFile results result manifest file).1.map (fun name =>
          fileJob result.backupLabel name file)).toList)
        checked (verifyBackupFile results result manifest file).2
        (storedName result.backupLabel manifest file) file := by
  rw [verifyBackupFile]
  cases href : file.reference with
  | none =>
    refine ⟨Grows.refl result, rfl, Or.inl ?_⟩
    simp [storedName, href]
  | some reference =>
    have byJob : Grows result result ∧ result.fileVerifyComplete = result.fileVerifyComplete ∧
        Passed outcome (jobs ++ ((some (repoFileName reference manifest file)).map (fun name =>
          fileJob result.backupLabel name file)).toList) checked result
          (storedName result.backupLabel manifest file) file := by
      refine ⟨Grows.refl result, rfl, Or.inl ?_⟩
      simp [storedName, href]
    dsimp only
    cases hp : results.find? (fun prior => prior.backupLabel = reference) with
    | none => exact byJob
    | some prior =>
      have memPrior := List.mem_of_find?_eq_some hp
      obtain rfl : prior.backupLabel = reference := by simpa using List.find?_some hp
      dsimp only
      by_cases complete : prior.fileVerifyComplete = true
      · -- The check is skipped, so the result of the prior backup must have decided the file.
        rw [complete, if_neg (by simp)]
        have track := tracked prior memPrior complete
        obtain ⟨priorManifest, priorUsable⟩ : ∃ m, manifestOf prior.backupLabel = some m := by
          cases hm : manifestOf prior.backupLabel with
          | none => exact absurd (track.unusable hm).2 (by simp [complete])
          | some m => exact ⟨m, rfl⟩
        obtain ⟨stored, memStored, own, sameName, sameSum, sameSize⟩ :=
          references _ _ _ _ _ usable mem href priorUsable
        have name : storedName prior.backupLabel priorManifest stored =
            storedName result.backupLabel manifest file := by
          rw [storedName, storedName, own, href]
          exact sameName
        obtain ⟨reached, decided⟩ := stored_decided track (plain prior memPrior)
          (fun job hj => settled job hj prior memPrior complete) complete priorUsable memStored
        have check : fileCheck (storedName prior.backupLabel priorManifest stored) stored =
            fileCheck (storedName result.backupLabel manifest file) file := by
          rw [fileCheck, fileCheck, name, sameSum, sameSize]
        rw [check] at reached decided
        rw [name] at decided
        have found : repoFileName prior.backupLabel manifest file =
            storedName result.backupLabel manifest file := by
          rw [storedName, href]
          rfl
        rw [found]
        cases hi : prior.invalidFileList.find? (fun invalid =>
            invalid.fileName = storedName result.backupLabel manifest file) with
        | some invalid =>
          have same : invalid.fileName = storedName result.backupLabel manifest file := by
            simpa using List.find?_some hi
          dsimp only
          rw [same]
          refine ⟨grows_invalid result _ _, rfl, Or.inr ⟨reached.mono _, Or.inr ?_⟩⟩
          exact mem_invalid_add result _ _
        | none =>
          refine ⟨grows_valid result, rfl, Or.inr ⟨reached.mono _, Or.inl ?_⟩⟩
          rcases decided with ok | listed
          · exact ok
          · obtain ⟨invalid, memInvalid, same⟩ := List.mem_map.mp listed
            have absent := List.find?_eq_none.mp hi invalid memInvalid
            exact absurd same (by simpa using absent)
      · rw [Bool.not_eq_true] at complete
        rw [complete, if_pos (by simp)]
        exact byJob

end File

end VerifyRun
