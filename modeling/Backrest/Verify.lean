import Backrest.Repository

/-!
# Verify: jobs and their results

The verify command hands out one job for each file and collects the results as
they arrive. A file that a backup references in an earlier backup is not checked
again when that backup is marked complete, and the mark is set while results are
collected. The state below is the job data of the source with the jobs that are
out, and a run is any order of the two kinds of step.
-/

namespace Verify

open Text BackupCommon BackupManifest BackupInfo FileTree Repository

section Data

inductive VerifyResult where
  | verifyOk
  | verifyFileMissing
  | verifyChecksumMismatch
  | verifySizeInvalid
  | verifyOtherError
  deriving DecidableEq, Repr

inductive VerifyBackupResultStatus where
  | backupValid
  | backupInvalid
  | backupMissingManifest
  | backupInProgress
  deriving DecidableEq, Repr

structure VerifyInvalidFile where
  fileName : Str
  reason : VerifyResult
  deriving DecidableEq

structure VerifyBackupResult where
  backupLabel : Str
  status : VerifyBackupResultStatus := .backupValid
  fileVerifyComplete : Bool := false
  totalFileManifest : Nat := 0
  totalFileVerify : Nat := 0
  totalFileValid : Nat := 0
  backupPrior : Option Str := none
  pgId : Nat := 0
  pgVersion : Nat := 0
  archiveStart : Option Str := none
  archiveStop : Option Str := none
  invalidFileList : List VerifyInvalidFile := []
  deriving DecidableEq

/-- The parameters of the command that checks a file. -/
structure FileCheck where
  filePathName : Str
  fileChecksum : Str
  fileSize : Nat
  deriving DecidableEq

/-- A job with the key its result is collected under. -/
structure Job where
  key : Str
  check : FileCheck
  deriving DecidableEq

structure ArchiveFile where
  archiveId : Str
  walPath : Str
  fileName : Str
  walSize : Nat
  plain : '/' ∉ archiveId

/-- `verifyArchive` reads its lists from storage only, so the files it will return jobs for one
after another are fixed from the start. -/
structure VerifyJobData where
  archiveFileList : List ArchiveFile
  backupList : List Str
  manifest : Option Manifest := none
  manifestFileIdx : Nat := 0
  currentBackup : Option Str := none
  pgHistory : InfoPg
  backupProcessing : Bool := false
  jobErrorTotal : Nat := 0
  backupResultList : List VerifyBackupResult := []

end Data

section Manifest

def verifyManifestLoad (storage : Storage) (backupLabel : Str) (currentBackup : Bool) :
    Option Manifest × VerifyBackupResultStatus :=
  match loadTry storage asManifest (manifestFileName backupLabel) with
  | .ok manifest => (some manifest, .backupValid)
  | .error e =>
    if !(currentBackup && e.type = .fileMissingError) then
      match loadTry storage asManifest (manifestCopyFileName backupLabel) with
      | .ok manifest => (some manifest, .backupValid)
      | .error eCopy =>
        if e.type = .fileMissingError && eCopy.type = .fileMissingError then
          (none, .backupMissingManifest)
        else (none, .backupValid)
    else (none, .backupInProgress)

def pgInHistory (pgHistory : InfoPg) (manifest : Manifest) : Bool :=
  pgHistory.history.any (fun pgData => pgData.id = manifest.data.pgId &&
    pgData.systemId = manifest.data.pgSystemId && pgData.version = manifest.data.pgVersion)

/-- `verifyManifestFile`: the usable manifest, with the status and the errors it leaves. -/
def verifyManifestFile (storage : Storage) (pgHistory : InfoPg) (backupLabel : Str)
    (currentBackup : Bool) : Option Manifest × VerifyBackupResultStatus × Nat :=
  let loaded := verifyManifestLoad storage backupLabel currentBackup
  let result := loaded.1.filter (pgInHistory pgHistory)
  if result.isNone && loaded.2 = .backupValid then (result, .backupInvalid, 1)
  else (result, loaded.2, 0)

theorem verifyManifestFile_none {storage : Storage} {pgHistory : InfoPg} {backupLabel : Str}
    {currentBackup : Bool}
    (h : (verifyManifestFile storage pgHistory backupLabel currentBackup).1 = none) :
    (verifyManifestFile storage pgHistory backupLabel currentBackup).2.1 ≠ .backupValid := by
  rw [verifyManifestFile] at h ⊢
  by_cases unset : ((Option.filter (pgInHistory pgHistory)
      (verifyManifestLoad storage backupLabel currentBackup).1).isNone &&
      decide ((verifyManifestLoad storage backupLabel currentBackup).2 = .backupValid)) = true
  · rw [if_pos unset]
    simp
  · rw [if_neg unset] at h ⊢
    intro valid
    apply unset
    rw [Bool.and_eq_true_iff, decide_eq_true_eq]
    exact ⟨Option.isNone_iff_eq_none.mpr h, valid⟩

end Manifest

section Backup

/-- The name of a file below the backups: `label/name.ext`. -/
def repoFileName (backupLabel : Str) (manifest : Manifest) (file : ManifestFile) : Str :=
  backupLabel ++ '/' :: file.name ++ compressExtStr manifest.data.backupOptionCompressType

def filePathName (fileName : Str) : Str := storageRepoBackup ++ '/' :: fileName

def fileCheck (fileName : Str) (file : ManifestFile) : FileCheck :=
  ⟨filePathName fileName, file.checksumSha1, file.size⟩

def fileJob (backupLabel fileName : Str) (file : ManifestFile) : Job :=
  ⟨backupLabel ++ '/' :: filePathName fileName, fileCheck fileName file⟩

def verifyInvalidFileAdd (result : VerifyBackupResult) (reason : VerifyResult) (fileName : Str) :
    VerifyBackupResult :=
  { result with
    status := .backupInvalid
    invalidFileList := result.invalidFileList ++ [⟨fileName, reason⟩] }

def verifyBackupFile (resultList : List VerifyBackupResult) (result : VerifyBackupResult)
    (manifest : Manifest) (file : ManifestFile) : Option Str × VerifyBackupResult :=
  match file.reference with
  | none => (some (repoFileName result.backupLabel manifest file), result)
  | some reference =>
    match resultList.find? (fun prior => prior.backupLabel = reference) with
    | none => (some (repoFileName reference manifest file), result)
    | some prior =>
      if !prior.fileVerifyComplete then (some (repoFileName reference manifest file), result)
      else
        match prior.invalidFileList.find? (fun invalid =>
          invalid.fileName = repoFileName reference manifest file) with
        | some invalid => (none, verifyInvalidFileAdd result invalid.reason invalid.fileName)
        | none => (none, { result with totalFileValid := result.totalFileValid + 1 })

def setLast (resultList : List VerifyBackupResult) (result : VerifyBackupResult) :
    List VerifyBackupResult :=
  resultList.dropLast ++ [result]

/-- The backup in front is done: free the manifest and remove it from the list. -/
def removeFirst (jobData : VerifyJobData) : VerifyJobData :=
  { jobData with manifest := none, backupList := jobData.backupList.tail }

/-- One pass of the loop over the files of a manifest. -/
def verifyNextFile (manifest : Manifest) (result : VerifyBackupResult) (file : ManifestFile)
    (jobData : VerifyJobData) : Option Job × VerifyJobData :=
  let counted := { result with totalFileVerify := result.totalFileVerify + 1 }
  let (fileName, checked) :=
    verifyBackupFile (setLast jobData.backupResultList counted) counted manifest file
  let next := { jobData with
    backupResultList := setLast jobData.backupResultList checked
    manifestFileIdx := jobData.manifestFileIdx + 1 }
  (fileName.map (fun name => fileJob result.backupLabel name file),
    if next.manifestFileIdx = checked.totalFileManifest then removeFirst next else next)

/-- The loop over the files from the current index on, up to the first job. -/
def verifyFiles (manifest : Manifest) : List ManifestFile → VerifyJobData → Option Job × VerifyJobData
  | [], jobData => (none, jobData)
  | file :: rest, jobData =>
    match jobData.backupResultList.getLast? with
    | none => (none, jobData)
    | some result =>
      match verifyNextFile manifest result file jobData with
      | (some job, next) => (some job, next)
      | (none, next) => verifyFiles manifest rest next

def backupResultNew (backupLabel : Str) (status : VerifyBackupResultStatus) (manifest : Manifest) :
    VerifyBackupResult where
  backupLabel := backupLabel
  status := status
  totalFileManifest := manifest.fileList.length
  backupPrior := manifest.data.backupLabelPrior
  pgId := manifest.data.pgId
  pgVersion := manifest.data.pgVersion
  archiveStart := manifest.data.archiveStart
  archiveStop := manifest.data.archiveStop

def verifyBackupStart (storage : Storage) (backupLabel : Str) (jobData : VerifyJobData) :
    VerifyJobData :=
  let (manifest, status, errors) := verifyManifestFile storage jobData.pgHistory backupLabel
    (jobData.currentBackup = some backupLabel)
  let started := { jobData with jobErrorTotal := jobData.jobErrorTotal + errors }
  match manifest with
  | none => removeFirst { started with
      backupResultList := jobData.backupResultList ++ [{ backupLabel := backupLabel, status := status }] }
  | some manifest => { started with
      manifest := some manifest
      manifestFileIdx := 0
      backupResultList := jobData.backupResultList ++ [backupResultNew backupLabel status manifest] }

def verifyBackupManifest (jobData : VerifyJobData) : Option Job × VerifyJobData :=
  match jobData.manifest with
  | none => (none, jobData)
  | some manifest =>
    if jobData.manifestFileIdx < manifest.fileList.length then
      verifyFiles manifest (manifest.fileList.drop jobData.manifestFileIdx) jobData
    else
      match jobData.backupResultList.getLast? with
      | none => (none, jobData)
      | some result => (none, removeFirst { jobData with
          jobErrorTotal := jobData.jobErrorTotal + 1
          backupResultList := setLast jobData.backupResultList { result with status := .backupInvalid } })

/-- The loop over the backups. A pass without a job removes the backup in front. -/
def verifyBackupLoop (storage : Storage) : List Str → VerifyJobData → Option Job × VerifyJobData
  | [], jobData => (none, jobData)
  | backupLabel :: rest, jobData =>
    let started :=
      if jobData.backupResultList.getLast?.map (·.backupLabel) = some backupLabel then jobData
      else verifyBackupStart storage backupLabel jobData
    match verifyBackupManifest started with
    | (some job, next) => (some job, next)
    | (none, next) => verifyBackupLoop storage rest next

def verifyBackup (storage : Storage) (jobData : VerifyJobData) : Option Job × VerifyJobData :=
  verifyBackupLoop storage jobData.backupList jobData

end Backup

section Run

/-- The name of a WAL segment carries its checksum after a dash. -/
def archiveJob (file : ArchiveFile) : Job :=
  let filePathName := storageRepoArchive ++ '/' :: (file.archiveId ++ '/' :: (file.walPath ++
    '/' :: file.fileName))
  ⟨file.archiveId ++ '/' :: filePathName,
    ⟨filePathName, strSubN file.fileName 25 40, file.walSize⟩⟩

def verifyArchive (jobData : VerifyJobData) : Option Job × VerifyJobData :=
  match jobData.archiveFileList with
  | [] => (none, jobData)
  | file :: rest => (some (archiveJob file), { jobData with archiveFileList := rest })

/-- `verifyJobCallback`: archive first, and backups once no archive is left. -/
def verifyJobCallback (storage : Storage) (jobData : VerifyJobData) : Option Job × VerifyJobData :=
  if jobData.backupProcessing then verifyBackup storage jobData
  else
    let (job, next) := verifyArchive jobData
    let next := { next with backupProcessing := next.archiveFileList.isEmpty }
    match job with
    | some job => (some job, next)
    | none => if next.backupProcessing then verifyBackup storage next else (none, next)

/-- The three parts of a key: the result it belongs to, the type of the file and its name. -/
def keySplit (key : Str) : Str × Str × Str :=
  let filePathLst := strLstNewSplit '/' key
  (filePathLst.headD [], filePathLst.tail.headD [], strLstJoin (filePathLst.drop 2) ['/'])

/-- Record what became of a file of a backup. -/
def verifyFileResult (result : VerifyBackupResult) (fileName : Str) :
    Except Error VerifyResult → VerifyBackupResult
  | .ok .verifyOk => { result with totalFileValid := result.totalFileValid + 1 }
  | .ok reason => verifyInvalidFileAdd result reason fileName
  | .error _ => verifyInvalidFileAdd result .verifyOtherError fileName

/-- Set the mark if all files have run through verification. -/
def verifyCompleteSet (result : VerifyBackupResult) : VerifyBackupResult :=
  if result.totalFileVerify = result.totalFileManifest then { result with fileVerifyComplete := true }
  else result

/-- `verifyLogInvalidResult` with the errors of the protocol: what a result adds to the errors. -/
def resultErrors (fileType : Str) : Except Error VerifyResult → Nat
  | .ok .verifyOk => 0
  | .ok .verifyFileMissing => if fileType = storageRepoArchive then 0 else 1
  | _ => 1

def updateResult (resultId : Str) (change : VerifyBackupResult → VerifyBackupResult) :
    List VerifyBackupResult → List VerifyBackupResult
  | [] => []
  | result :: rest =>
    if result.backupLabel = resultId then change result :: rest
    else result :: updateResult resultId change rest

/-- One pass of the result loop of `verifyProcess`. The ranges of the archive are left out. -/
def verifyJobResult (jobData : VerifyJobData) (key : Str) (outcome : Except Error VerifyResult) :
    VerifyJobData :=
  let (resultId, fileType, fileName) := keySplit key
  let counted := { jobData with
    jobErrorTotal := jobData.jobErrorTotal + resultErrors fileType outcome }
  if fileType = storageRepoArchive then counted
  else { counted with
    backupResultList := updateResult resultId (fun result =>
      let checked := verifyFileResult result fileName outcome
      if fileType = storageRepoBackup then verifyCompleteSet checked else checked)
      jobData.backupResultList }

/-- The job data with the jobs that are out, and the files that have been checked so far. -/
structure State where
  jobData : VerifyJobData
  jobList : List Job := []
  checked : List FileCheck := []

abbrev Outcome := FileCheck → Except Error VerifyResult

/-- A worker asks for a job. -/
def dispatch (storage : Storage) (s : State) : State :=
  let (job, jobData) := verifyJobCallback storage s.jobData
  { s with jobData := jobData, jobList := s.jobList ++ job.toList }

def collect (outcome : Outcome) (job : Job) (s : State) : State where
  jobData := verifyJobResult s.jobData job.key (outcome job.check)
  jobList := s.jobList.erase job
  checked := s.checked ++ [job.check]

/-- Workers ask for jobs and jobs end in any order. A worker may be held back. -/
inductive Step (storage : Storage) (outcome : Outcome) (free : State → Prop) : State → State → Prop
  | dispatch {s : State} : free s → Step storage outcome free s (dispatch storage s)
  | collect {s : State} (job : Job) : job ∈ s.jobList →
      Step storage outcome free s (collect outcome job s)

def currentBackup (info : InfoBackup) (backupList : List Str) : Option Str :=
  backupList.getLast?.filter (fun label => (infoBackupDataByLabel info label).isNone)

/-- The job data with which `verifyProcess` starts. -/
def verifyStart (storage : Storage) (info : InfoBackup) (pgHistory : InfoPg)
    (archiveFileList : List ArchiveFile) : State where
  jobData :=
    let backupList := strLstSort (storageList storage [storageRepoBackup] labelAny) .asc
    { archiveFileList := archiveFileList
      backupList := backupList
      currentBackup := currentBackup info backupList
      pgHistory := pgHistory
      backupProcessing := archiveFileList.isEmpty }

end Run

end Verify
