import Backrest.VerifyPass
import Mathlib.Logic.Relation

/-!
# What a valid backup says

A backup is reported valid when no check of its files has failed, and a file
that it references in another backup may not have been checked under its name.
The invariant follows every file of a manifest that was passed: its job is out,
or it was decided by a check, under this backup or under the one that stores it.
-/

namespace VerifyRun

open Text BackupCommon BackupManifest BackupInfo FileTree Repository Verify

section Collect
variable {storage : Storage} {manifestOf : Str → Option Manifest} {outcome : Outcome}
  {jobs : List Job} {checked : List FileCheck} {jobData : VerifyJobData}

theorem Reached.collect {job : Job} {check : FileCheck} (reached : Reached jobs checked check) :
    Reached (jobs.erase job) (checked ++ [job.check]) check := by
  rcases reached with done | ⟨other, mem, same⟩
  · exact Or.inl (List.mem_append_left _ done)
  · by_cases this : other = job
    · rw [← same, this]
      exact Or.inl (List.mem_append_right _ List.mem_cons_self)
    · exact Or.inr ⟨other, (List.mem_erase_of_ne this).mpr mem, same⟩

variable {name label : Str} {result : VerifyBackupResult} {file : ManifestFile}

theorem Passed.collect_other {job : Job} (passed : Passed outcome jobs checked result name file)
    (other : fileJob result.backupLabel name file ≠ job) :
    Passed outcome (jobs.erase job) (checked ++ [job.check]) result name file := by
  rcases passed with out | ⟨reached, decided⟩
  · exact Or.inl ((List.mem_erase_of_ne other).mpr out)
  · exact Or.inr ⟨reached.collect, decided⟩

theorem filePathName_inj {name' : Str} (h : filePathName name = filePathName name') :
    name = name' := by
  have := List.append_cancel_left h
  exact (List.cons.inj this).2

/-- What the result loop makes of a result. -/
def collected (label name : Str) (found : Except Error VerifyResult) (result : VerifyBackupResult) :
    VerifyBackupResult :=
  if result.backupLabel = label then verifyCompleteSet (verifyFileResult result name found)
  else result

theorem grows_completeSet (result : VerifyBackupResult) : Grows result (verifyCompleteSet result) := by
  rw [verifyCompleteSet]
  split
  · exact ⟨rfl, rfl, rfl, id, id, fun _ => id⟩
  · exact Grows.refl result

theorem Grows.trans {a b c : VerifyBackupResult} (first : Grows a b) (rest : Grows b c) :
    Grows a c :=
  ⟨rest.label.trans first.label, rest.total.trans first.total, rest.verify.trans first.verify,
    fun h => rest.notValid (first.notValid h), fun h => rest.invalid (first.invalid h),
    fun name h => rest.names name (first.names name h)⟩

theorem grows_collected (label name : Str) (found : Except Error VerifyResult)
    (result : VerifyBackupResult) : Grows result (collected label name found result) := by
  rw [collected]
  split
  · exact (grows_fileResult result name found).trans (grows_completeSet _)
  · exact Grows.refl result

/-- The mark of a result is set by its own job only, when all its files were passed. -/
theorem collected_complete {found : Except Error VerifyResult}
    (complete : (collected label name found result).fileVerifyComplete = true) :
    result.fileVerifyComplete = true ∨
      result.backupLabel = label ∧ result.totalFileVerify = result.totalFileManifest := by
  rw [collected] at complete
  split at complete
  · rename_i here
    have grows := grows_fileResult result name found
    rw [verifyCompleteSet] at complete
    split at complete
    · rename_i all
      rw [grows.verify, grows.total] at all
      exact Or.inr ⟨here, all⟩
    · left
      rw [← complete]
      cases found with
      | error e => rfl
      | ok reason => cases reason <;> rfl
  · exact Or.inl complete

theorem Passed.collect {name' : Str} {file' : ManifestFile} (plain : '/' ∉ label)
    (plainResult : '/' ∉ result.backupLabel)
    (passed : Passed outcome jobs checked result name' file') :
    Passed outcome (jobs.erase (fileJob label name file))
      (checked ++ [(fileJob label name file).check])
      (collected label name (outcome (fileJob label name file).check) result) name' file' := by
  have grows := grows_collected label name (outcome (fileJob label name file).check) result
  by_cases this : fileJob result.backupLabel name' file' = fileJob label name file
  · have here : result.backupLabel = label := by
      have key := congrArg (fun job => (keySplit job.key).1) this
      rwa [keySplit_fileJob plainResult, keySplit_fileJob plain] at key
    have check : fileCheck name' file' = fileCheck name file := congrArg Job.check this
    have sameName : name' = name := filePathName_inj (congrArg FileCheck.filePathName check)
    refine Or.inr ⟨Or.inl (List.mem_append_right _ ?_), ?_⟩
    · rw [check]
      exact List.mem_cons_self
    · rw [check, sameName, collected, if_pos here]
      have set := grows_completeSet (verifyFileResult result name (outcome (fileCheck name file)))
      rcases fileResult_decides result name (outcome (fileCheck name file)) with ok | ⟨invalid, mem⟩
      · exact Or.inl ok
      · exact Or.inr ⟨set.invalid invalid, set.names name mem⟩
  · exact (passed.collect_other this).grows grows

theorem Tracked.collect (tracked : Tracked manifestOf outcome jobs checked result)
    (plain : '/' ∉ label) (plainResult : '/' ∉ result.backupLabel)
    (usable : (manifestOf label).isSome) :
    Tracked manifestOf outcome (jobs.erase (fileJob label name file))
      (checked ++ [(fileJob label name file).check])
      (collected label name (outcome (fileJob label name file).check) result) := by
  have grows := grows_collected label name (outcome (fileJob label name file).check) result
  refine ⟨fun none => ?_, fun m h => ?_, fun complete => ?_, fun m h f mem => ?_⟩
  · rw [grows.label] at none
    refine ⟨grows.notValid (tracked.unusable none).1, ?_⟩
    rw [collected, if_neg (fun here => ?_)]
    · exact (tracked.unusable none).2
    · rw [← here, none] at usable
      cases usable
  · rw [grows.total]
    exact tracked.total m (grows.label ▸ h)
  · rw [grows.verify, grows.total]
    rcases collected_complete complete with old | ⟨-, all⟩
    · exact tracked.complete old
    · exact all
  · rw [grows.verify] at mem
    rw [grows.label] at h ⊢
    exact (tracked.passed m h f mem).collect plain plainResult

theorem updateResult_eq_map {change : VerifyBackupResult → VerifyBackupResult}
    {results : List VerifyBackupResult} (once : (results.map (·.backupLabel)).Nodup) :
    updateResult label change results =
      results.map (fun result => if result.backupLabel = label then change result else result) := by
  induction results with
  | nil => rfl
  | cons result rest ih =>
    obtain ⟨fresh, once⟩ := List.nodup_cons.mp once
    rw [updateResult, List.map_cons]
    by_cases here : result.backupLabel = label
    · rw [if_pos here, if_pos here]
      have others : rest.map (fun other => if other.backupLabel = label then change other else other) =
          rest.map id := by
        refine List.map_congr_left (fun other mem => if_neg (fun same => fresh ?_))
        exact List.mem_map.mpr ⟨other, mem, same.trans here.symm⟩
      rw [others, List.map_id]
    · rw [if_neg here, if_neg here, ih once]

theorem verifyJobResult_archive (file : ArchiveFile) (found : Except Error VerifyResult) :
    ∃ errors, verifyJobResult jobData (archiveJob file).key found =
      { jobData with jobErrorTotal := jobData.jobErrorTotal + errors } := by
  obtain ⟨fileName, split⟩ := keySplit_archiveJob file
  refine ⟨resultErrors storageRepoArchive found, ?_⟩
  rw [verifyJobResult, split]
  exact if_pos rfl

theorem verifyJobResult_backup (plain : '/' ∉ label)
    (once : (jobData.backupResultList.map (·.backupLabel)).Nodup)
    (found : Except Error VerifyResult) :
    ∃ errors, verifyJobResult jobData (fileJob label name file).key found =
      { jobData with
        jobErrorTotal := jobData.jobErrorTotal + errors
        backupResultList := jobData.backupResultList.map (collected label name found) } := by
  refine ⟨resultErrors storageRepoBackup found, ?_⟩
  rw [verifyJobResult, keySplit_fileJob plain]
  dsimp only
  rw [if_neg (by decide), updateResult_eq_map once]
  rfl

/-- The jobs that are left are known, and the results that are left are the same. -/
theorem Progress.collect_archive {file : ArchiveFile} {errors : Nat}
    (progress : Progress storage manifestOf outcome jobs checked jobData) :
    Progress storage manifestOf outcome (jobs.erase (archiveJob file))
      (checked ++ [(archiveJob file).check])
      { jobData with jobErrorTotal := jobData.jobErrorTotal + errors } := by
  refine ⟨progress.source, progress.plain, progress.once,
    fun job hj => progress.known job (List.mem_of_mem_erase hj), fun result hr => ?_, ?_⟩
  · have tracked := progress.tracked result hr
    refine { tracked with passed := fun m h f mem => ?_ }
    refine (tracked.passed m h f mem).collect_other (fun same => ?_)
    obtain ⟨fileName, split⟩ := keySplit_archiveJob file
    have key := congrArg (fun job => (keySplit job.key).2.1) same
    rw [keySplit_fileJob (progress.plainResult hr), split] at key
    have different : storageRepoBackup ≠ storageRepoArchive := by decide
    exact different key
  · rcases progress.current with idle | ⟨manifest, done, result, busy⟩
    · exact Or.inl idle
    · exact Or.inr ⟨manifest, done, result, { busy with }⟩

theorem ended_collected {found : Except Error VerifyResult} (ended : Ended manifestOf result) :
    Ended manifestOf (collected label name found result) := by
  intro m h
  have grows := grows_collected label name found result
  rw [grows.verify]
  exact ended m (grows.label ▸ h)

theorem map_label_collected (label name : Str) (found : Except Error VerifyResult)
    (results : List VerifyBackupResult) :
    (results.map (collected label name found)).map (·.backupLabel) =
      results.map (·.backupLabel) := by
  rw [List.map_map]
  exact List.map_congr_left (fun result _ => (grows_collected label name found result).label)

theorem Progress.collect_backup {errors : Nat}
    (progress : Progress storage manifestOf outcome jobs checked jobData) (left : Open jobData)
    (plain : '/' ∉ label) (usable : (manifestOf label).isSome) :
    Progress storage manifestOf outcome (jobs.erase (fileJob label name file))
      (checked ++ [(fileJob label name file).check])
      { jobData with
        jobErrorTotal := jobData.jobErrorTotal + errors
        backupResultList := jobData.backupResultList.map
          (collected label name (outcome (fileJob label name file).check)) } := by
  generalize hf : outcome (fileJob label name file).check = found
  have same : labels { jobData with
      jobErrorTotal := jobData.jobErrorTotal + errors
      backupResultList := jobData.backupResultList.map (collected label name found) } =
        labels jobData := by
    rw [labels, map_label_collected]
    rfl
  refine ⟨progress.source, fun l h => progress.plain l (same ▸ h), same ▸ progress.once,
    fun job hj => (progress.known job (List.mem_of_mem_erase hj)).of_labels (fun l h => ?_),
    fun result hr => ?_, ?_⟩
  · rwa [map_label_collected]
  · obtain ⟨old, memOld, rfl⟩ := List.mem_map.mp hr
    rw [← hf]
    exact (progress.tracked old memOld).collect plain (progress.plainResult memOld) usable
  · rcases progress.current with idle | ⟨manifest, done, result, busy⟩
    · refine Or.inl ⟨idle.1, fun result hr => ?_⟩
      obtain ⟨old, memOld, rfl⟩ := List.mem_map.mp hr
      exact ended_collected (idle.2 old memOld)
    · have grows := grows_collected label name found result
      have inResults : result ∈ jobData.backupResultList := by
        rw [busy.results]
        exact List.mem_append_right _ List.mem_cons_self
      have bound := left manifest busy.loaded
      refine Or.inr ⟨manifest, done.map (collected label name found), collected label name found result,
        ?_, busy.loaded, ?_, ?_, ?_, busy.bound, ?_, ?_⟩
      · rw [busy.results, List.map_append, List.map_singleton]
      · rw [grows.label]
        exact busy.first
      · rw [grows.label]
        exact busy.usable
      · exact grows.verify.trans busy.index
      · -- Files are left, so the mark is not set.
        rw [← Bool.not_eq_true]
        intro complete
        rcases collected_complete complete with old | ⟨-, all⟩
        · rw [busy.notComplete] at old
          cases old
        · rw [(progress.tracked result inResults).total manifest busy.usable, busy.index] at all
          omega
      · intro prior hp
        obtain ⟨old, memOld, rfl⟩ := List.mem_map.mp hp
        exact ended_collected (busy.ended old memOld)

end Collect

section Run
variable {storage : Storage} {manifestOf : Str → Option Manifest} {outcome : Outcome}

/-- The invariant of a run. -/
structure Inv (storage : Storage) (manifestOf : Str → Option Manifest) (outcome : Outcome)
    (s : State) : Prop where
  progress : Progress storage manifestOf outcome s.jobList s.checked s.jobData
  left : Open s.jobData

/-- No check that fails is out for a backup that is already marked complete. -/
def Calm (outcome : Outcome) (s : State) : Prop :=
  Settled outcome s.jobList s.jobData.backupResultList

variable {checked : List FileCheck} {s : State} {jobs : List Job} {jobData : VerifyJobData}

/-- The archive phase leaves the backups as they are. -/
theorem Progress.archive (progress : Progress storage manifestOf outcome jobs checked jobData)
    (rest : List ArchiveFile) (processing : Bool) :
    Progress storage manifestOf outcome jobs checked
      { jobData with archiveFileList := rest, backupProcessing := processing } := by
  refine ⟨progress.source, progress.plain, progress.once, progress.known, progress.tracked, ?_⟩
  rcases progress.current with idle | ⟨manifest, done, result, busy⟩
  · exact Or.inl idle
  · exact Or.inr ⟨manifest, done, result, { busy with }⟩

theorem Progress.archiveJob (progress : Progress storage manifestOf outcome jobs checked jobData)
    (file : ArchiveFile) :
    Progress storage manifestOf outcome (jobs ++ [archiveJob file]) checked jobData := by
  refine ⟨progress.source, progress.plain, progress.once, fun job hj => ?_,
    fun result hr => (progress.tracked result hr).mono _, progress.current⟩
  rcases List.mem_append.mp hj with old | new
  · exact progress.known job old
  · exact Or.inl ⟨file, List.mem_singleton.mp new⟩

/-- The callback keeps the invariant, and returns no job only when no backup is left. -/
theorem verifyJobCallback_spec (references : ReferencesStored manifestOf)
    (inv : Inv storage manifestOf outcome s) (calm : Calm outcome s) {job : Option Job}
    {next : VerifyJobData} (run : verifyJobCallback storage s.jobData = (job, next)) :
    Progress storage manifestOf outcome (s.jobList ++ job.toList) s.checked next ∧ Open next ∧
      (job = none → next.manifest = none ∧ next.backupList = []) := by
  rw [verifyJobCallback] at run
  split at run
  · have dispatched := verifyBackupLoop_dispatched references inv.progress calm inv.left rfl run
    exact ⟨dispatched.progress, dispatched.left, dispatched.none⟩
  · rw [verifyArchive] at run
    cases hl : s.jobData.archiveFileList with
    | cons file rest =>
      rw [hl] at run
      cases run
      exact ⟨(inv.progress.archive rest _).archiveJob file, inv.left, fun h => by cases h⟩
    | nil =>
      rw [hl] at run
      dsimp only at run
      rw [hl, if_pos List.isEmpty_nil] at run
      have dispatched := verifyBackupLoop_dispatched references (inv.progress.archive [] _) calm
        inv.left rfl run
      exact ⟨dispatched.progress, dispatched.left, dispatched.none⟩

theorem dispatch_inv (references : ReferencesStored manifestOf)
    (inv : Inv storage manifestOf outcome s) (calm : Calm outcome s) :
    Inv storage manifestOf outcome (dispatch storage s) := by
  rcases hc : verifyJobCallback storage s.jobData with ⟨job, next⟩
  obtain ⟨progress, left, -⟩ := verifyJobCallback_spec references inv calm hc
  rw [dispatch, hc]
  exact ⟨progress, left⟩

theorem collect_inv (inv : Inv storage manifestOf outcome s) {job : Job} (out : job ∈ s.jobList) :
    Inv storage manifestOf outcome (collect outcome job s) := by
  rcases inv.progress.known job out with ⟨file, rfl⟩ | ⟨result, mem, usable, name, file, rfl⟩
  · obtain ⟨errors, same⟩ := verifyJobResult_archive file (outcome (archiveJob file).check)
    refine ⟨?_, ?_⟩
    · rw [collect, same]
      exact inv.progress.collect_archive
    · rw [collect, same]
      exact inv.left
  · have plain := inv.progress.plainResult mem
    have once := (List.nodup_append.mp inv.progress.once).1
    obtain ⟨errors, same⟩ := verifyJobResult_backup plain once
      (outcome (fileJob result.backupLabel name file).check)
    refine ⟨?_, ?_⟩
    · rw [collect, same]
      exact inv.progress.collect_backup inv.left plain usable
    · rw [collect, same]
      exact inv.left

theorem run_inv (references : ReferencesStored manifestOf) {start : State}
    (init : Inv storage manifestOf outcome start)
    (run : Relation.ReflTransGen (Step storage outcome (Calm outcome)) start s) :
    Inv storage manifestOf outcome s := by
  induction run with
  | refl => exact init
  | tail _ step ih =>
    cases step with
    | dispatch calm => exact dispatch_inv references ih calm
    | collect job out => exact collect_inv ih out

def checkOf (label : Str) (manifest : Manifest) (file : ManifestFile) : FileCheck :=
  fileCheck (storedName label manifest file) file

theorem Progress.idle (progress : Progress storage manifestOf outcome jobs checked jobData)
    (none : jobData.manifest = none) :
    ∀ result ∈ jobData.backupResultList, Ended manifestOf result := by
  rcases progress.current with idle | ⟨manifest, done, result, busy⟩
  · exact idle.2
  · rw [busy.loaded] at none
    cases none

theorem Tracked.decided {result : VerifyBackupResult} {manifest : Manifest} {file : ManifestFile}
    (tracked : Tracked manifestOf outcome [] checked result)
    (usable : manifestOf result.backupLabel = some manifest)
    (ended : result.totalFileVerify = manifest.fileList.length) (mem : file ∈ manifest.fileList) :
    checkOf result.backupLabel manifest file ∈ checked ∧
      (outcome (checkOf result.backupLabel manifest file) = .ok .verifyOk ∨
        result.status = .backupInvalid ∧ storedName result.backupLabel manifest file ∈
          result.invalidFileList.map (·.fileName)) := by
  have passed := tracked.passed manifest usable file (by rwa [ended, List.take_length])
  rcases passed with out | ⟨done | ⟨job, out, -⟩, decided⟩
  · cases out
  · exact ⟨done, decided⟩
  · cases out

def usableManifest (storage : Storage) (s : State) (label : Str) : Option Manifest :=
  (verifyManifestFile storage s.jobData.pgHistory label
    (s.jobData.currentBackup = some label)).1

theorem start_inv (info : InfoBackup) (pgHistory : InfoPg) (archiveFileList : List ArchiveFile) :
    Inv storage (usableManifest storage (verifyStart storage info pgHistory archiveFileList)) outcome
      (verifyStart storage info pgHistory archiveFileList) := by
  have none {α : Type} {P : α → Prop} : ∀ a ∈ ([] : List α), P a := fun _ h => by cases h
  refine ⟨⟨fun _ => rfl, fun label h => ?_, ?_, none, none, Or.inl ⟨rfl, none⟩⟩, ?_⟩
  · have listed : label ∈ strLstSort (storageList storage [storageRepoBackup] labelAny) .asc := h
    exact slash_not_mem_of_labelAny (mem_storageList.mp (mem_strLstSort.mp listed)).2
  · exact strLstSort_storageList_nodup storage [storageRepoBackup] labelAny .asc
  · intro manifest loaded
    cases loaded

/-- In every run in which no worker is given a job while a failing check is out for a backup that
is marked complete, a backup is valid at the end only if every file of its manifest was checked and
found valid, and every file that was found invalid is in the list of every backup that has it. -/
theorem valid_only_if_checked {info : InfoBackup} {pgHistory : InfoPg}
    {archiveFileList : List ArchiveFile} {s : State}
    (references : ReferencesStored
      (usableManifest storage (verifyStart storage info pgHistory archiveFileList)))
    (run : Relation.ReflTransGen (Step storage outcome (Calm outcome))
      (verifyStart storage info pgHistory archiveFileList) s)
    (ended : (dispatch storage s).jobList = []) :
    ∀ result ∈ (dispatch storage s).jobData.backupResultList,
      (result.status = .backupValid → ∃ manifest,
        usableManifest storage (verifyStart storage info pgHistory archiveFileList)
          result.backupLabel = some manifest ∧
        ∀ file ∈ manifest.fileList, checkOf result.backupLabel manifest file ∈ s.checked ∧
          outcome (checkOf result.backupLabel manifest file) = .ok .verifyOk) ∧
      ∀ manifest, usableManifest storage (verifyStart storage info pgHistory archiveFileList)
          result.backupLabel = some manifest →
        ∀ file ∈ manifest.fileList,
          outcome (checkOf result.backupLabel manifest file) ≠ .ok .verifyOk →
          storedName result.backupLabel manifest file ∈ result.invalidFileList.map (·.fileName) := by
  have inv := run_inv references (start_inv info pgHistory archiveFileList) run
  have out : s.jobList = [] := (List.append_eq_nil_iff.mp ended).1
  have calm : Calm outcome s := by
    intro job hj
    rw [out] at hj
    cases hj
  rcases hc : verifyJobCallback storage s.jobData with ⟨job, next⟩
  obtain ⟨progress, -, last⟩ := verifyJobCallback_spec references inv calm hc
  rw [dispatch, hc] at ended ⊢
  have noJob : job = none := Option.toList_eq_nil_iff.mp (List.append_eq_nil_iff.mp ended).2
  subst noJob
  have idle := progress.idle (last rfl).1
  rw [out, Option.toList_none, List.append_nil] at progress
  intro result mem
  have tracked := progress.tracked result mem
  have decided (manifest : Manifest) (usable : usableManifest storage
      (verifyStart storage info pgHistory archiveFileList) result.backupLabel = some manifest)
      (file : ManifestFile) (hf : file ∈ manifest.fileList) :=
    tracked.decided usable (idle result mem manifest usable) hf
  constructor
  · intro valid
    cases hm : usableManifest storage (verifyStart storage info pgHistory archiveFileList)
        result.backupLabel with
    | none => exact absurd valid (tracked.unusable hm).1
    | some manifest =>
      refine ⟨manifest, rfl, fun file hf => ?_⟩
      obtain ⟨done, ok | ⟨invalid, -⟩⟩ := decided manifest hm file hf
      · exact ⟨done, ok⟩
      · rw [valid] at invalid
        cases invalid
  · intro manifest usable file hf fails
    obtain ⟨-, ok | ⟨-, listed⟩⟩ := decided manifest usable file hf
    · exact absurd ok fails
    · exact listed

end Run

section Example

def fullLabel : Str := "20200101-000000F".toList
def incrLabel : Str := "20200101-000000F_20200102-000000I".toList

def manifestWith (files : List ManifestFile) : Manifest :=
  { data := { pgId := 1, pgSystemId := 1, pgVersion := 90600 }, fileList := files }

def firstFile : ManifestFile := { name := "pg_data/a".toList }
def secondFile : ManifestFile := { name := "pg_data/b".toList }
def ownFile : ManifestFile := { name := "pg_data/c".toList }

def pairStorage : Storage :=
  ⟨[(backupPath fullLabel, .dir),
    (manifestFileName fullLabel, .file (.manifest (manifestWith [firstFile, secondFile]))),
    (backupPath incrLabel, .dir),
    (manifestFileName incrLabel,
      .file (.manifest (manifestWith [{ secondFile with reference := some fullLabel }, ownFile])))]⟩

def pairPg : InfoPg := ⟨[⟨1, 1, 1, 90600⟩], 0⟩

def pairInfo : InfoBackup :=
  ⟨pairPg, [{ backupLabel := fullLabel }, { backupLabel := incrLabel }]⟩

def pairStart : State := verifyStart pairStorage pairInfo pairPg []

def jobFor (label : Str) (file : ManifestFile) : Job :=
  fileJob label (repoFileName label (manifestWith []) file) file

def damaged : Outcome := fun check =>
  if check = (jobFor fullLabel secondFile).check then .ok .verifyChecksumMismatch else .ok .verifyOk

def referencesCheck (storage : Storage) : Bool :=
  storage.entries.all (fun e => storage.entries.all (fun e' =>
    match e, e' with
    | (_, .file (.manifest manifest)), ([_, reference, _], .file (.manifest prior)) =>
      manifest.fileList.all (fun file => decide (file.reference ≠ some reference) ||
        prior.fileList.any (fun stored => decide (stored.reference = none ∧
          repoFileName reference prior stored = repoFileName reference manifest file ∧
          stored.checksumSha1 = file.checksumSha1 ∧ stored.size = file.size)))
    | _, _ => true))

theorem usableManifest_mem {storage : Storage} {s : State} {label : Str} {manifest : Manifest}
    (h : usableManifest storage s label = some manifest) :
    ∃ file, ([storageRepoBackup, label, file], .file (.manifest manifest)) ∈ storage.entries := by
  rw [usableManifest, verifyManifestFile] at h
  have loaded : (verifyManifestLoad storage label (s.jobData.currentBackup = some label)).1 =
      some manifest := by
    split at h
    · exact (Option.filter_eq_some_iff.mp h).1
    · exact (Option.filter_eq_some_iff.mp h).1
  rw [verifyManifestLoad] at loaded
  split at loaded
  · rename_i tried
    cases loaded
    exact ⟨_, loadTry_manifest tried⟩
  · split at loaded
    · split at loaded
      · rename_i tried
        cases loaded
        exact ⟨_, loadTry_manifest tried⟩
      · split at loaded <;> cases loaded
    · cases loaded

theorem references_of_check {storage : Storage} (h : referencesCheck storage = true) (s : State) :
    ReferencesStored (usableManifest storage s) := by
  intro label manifest file reference prior here mem refers there
  obtain ⟨name, entry⟩ := usableManifest_mem here
  obtain ⟨name', entry'⟩ := usableManifest_mem there
  have all := List.all_eq_true.mp (List.all_eq_true.mp h _ entry) _ entry'
  have one := List.all_eq_true.mp all file mem
  rw [refers] at one
  simpa using one

theorem free_of_no_job {outcome : Outcome} {s : State} (h : s.jobList = []) : Calm outcome s := by
  intro job hj
  rw [h] at hj
  cases hj

/-- Each job is collected before the next one is given out. -/
def quietEnd : State :=
  collect damaged (jobFor incrLabel ownFile) (dispatch pairStorage
    (collect damaged (jobFor fullLabel secondFile) (dispatch pairStorage
      (collect damaged (jobFor fullLabel firstFile) (dispatch pairStorage pairStart)))))

theorem quietEnd_reached :
    Relation.ReflTransGen (Step pairStorage damaged (Calm damaged)) pairStart quietEnd := by
  have first : Relation.ReflTransGen (Step pairStorage damaged (Calm damaged)) pairStart
      (dispatch pairStorage pairStart) := .single (.dispatch (free_of_no_job rfl))
  have second := first.tail (.collect (jobFor fullLabel firstFile) (by decide +kernel))
  have third := second.tail (.dispatch (free_of_no_job (by decide +kernel)))
  have fourth := third.tail (.collect (jobFor fullLabel secondFile) (by decide +kernel))
  have fifth := fourth.tail (.dispatch (free_of_no_job (by decide +kernel)))
  exact fifth.tail (.collect _ (by decide +kernel))

/-- The damaged file is in the list of the incremental backup, which did not check it again. -/
theorem valid_only_if_checked_quiet :
    ∃ result ∈ (dispatch pairStorage quietEnd).jobData.backupResultList,
      result.backupLabel = incrLabel ∧
      repoFileName fullLabel (manifestWith []) secondFile ∈
        result.invalidFileList.map (·.fileName) := by
  have ended : (dispatch pairStorage quietEnd).jobList = [] := by decide +kernel
  have all := valid_only_if_checked (references_of_check (by decide +kernel) pairStart)
    quietEnd_reached ended
  have listed : ∃ result ∈ (dispatch pairStorage quietEnd).jobData.backupResultList,
      result.backupLabel = incrLabel := by decide +kernel
  obtain ⟨result, mem, label⟩ := listed
  refine ⟨result, mem, label, ?_⟩
  have decided := (all result mem).2
  rw [label] at decided
  exact decided _ rfl _ List.mem_cons_self (by decide +kernel)

/-- The second job is given out before the result of the first one is collected, as with a single
worker, and the full backup is then marked complete while the second job is still out. -/
def hastyEnd : State :=
  collect damaged (jobFor incrLabel ownFile)
    (collect damaged (jobFor fullLabel secondFile) (dispatch pairStorage
      (collect damaged (jobFor fullLabel firstFile)
        (dispatch pairStorage (dispatch pairStorage pairStart)))))

theorem hastyEnd_reached :
    Relation.ReflTransGen (Step pairStorage damaged (fun _ => True)) pairStart hastyEnd := by
  have first : Relation.ReflTransGen (Step pairStorage damaged (fun _ => True)) pairStart
      (dispatch pairStorage pairStart) := .single (.dispatch trivial)
  have second := first.tail (.dispatch trivial)
  have third := second.tail (.collect (jobFor fullLabel firstFile) (by decide +kernel))
  have fourth := third.tail (.dispatch trivial)
  have fifth := fourth.tail (.collect (jobFor fullLabel secondFile) (by decide +kernel))
  exact fifth.tail (.collect _ (by decide +kernel))

/-- The incremental backup is reported valid although the file it references was found damaged. -/
theorem valid_although_damaged :
    Relation.ReflTransGen (Step pairStorage damaged (fun _ => True)) pairStart hastyEnd ∧
      ReferencesStored (usableManifest pairStorage pairStart) ∧
      (dispatch pairStorage hastyEnd).jobList = [] ∧
      (∃ result ∈ (dispatch pairStorage hastyEnd).jobData.backupResultList,
        result.backupLabel = incrLabel ∧ result.status = .backupValid ∧ result.invalidFileList = []) ∧
      ∃ manifest, usableManifest pairStorage pairStart incrLabel = some manifest ∧
        ∃ file ∈ manifest.fileList,
          checkOf incrLabel manifest file ∈ hastyEnd.checked ∧
          damaged (checkOf incrLabel manifest file) = .ok .verifyChecksumMismatch := by
  refine ⟨hastyEnd_reached, references_of_check (by decide +kernel) pairStart, by decide +kernel,
    by decide +kernel, _, rfl, _, List.mem_cons_self, ?_⟩
  decide +kernel

end Example

end VerifyRun
