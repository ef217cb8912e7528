import Backrest.BackupQueue
import Backrest.ManifestTarget
import Backrest.RegExp

/-!
# Restore queues

The files of a restore wait in one queue for each target. A client starts at a
queue of its own and walks around the others, forward or back, until it finds a
file. The result of a job adds the size of its file to the progress.
-/

namespace RestoreQueue

open Text BackupManifest ManifestTarget Effects
open BackupQueue (strCmp stride coprime_stride flatten_set_perm flatten_modify_perm
  backupJobQueueNext_eq)

section Build

def restoreProcessQueueComparator (item1 item2 : ManifestFile) : Int :=
  if item1.size < item2.size then -1
  else if item1.size > item2.size then 1
  else strCmp item1.name item2.name

/-- `lstSort` with `sortOrderDesc`. -/
def queueSort (queue : List ManifestFile) : List ManifestFile :=
  queue.mergeSort fun item1 item2 => decide (0 ≤ restoreProcessQueueComparator item1 item2)

/-- The directories a file may be below, each with its queue. -/
def queueTargetList (manifest : Manifest) : List Str :=
  (manifestTargetPgData ++ ['/']) ::
    (manifest.targetList.filter (fun target => target.tablespaceId ≠ 0)).map
      (fun target => target.name ++ ['/'])

def targetCheckError : Error :=
  ⟨.assertError, "check 'targetIdx < strLstSize(targetList)' failed".toList⟩

structure QueueBuild where
  queueList : List (List ManifestFile)
  result : Nat := 0

def queueFileAdd (targetList : List Str) (build : QueueBuild) (file : ManifestFile) :
    Except Error QueueBuild :=
  match targetList.findIdx? (strBeginsWith file.name) with
  | none => .error targetCheckError
  | some targetIdx =>
    .ok {
      queueList := build.queueList.modify targetIdx (· ++ [file])
      result := (build.result + file.size) % 2 ^ 64 }

def restoreProcessQueue (manifest : Manifest) : Except Error (Nat × List (List ManifestFile)) := do
  let targetList := queueTargetList manifest
  let build ← manifest.fileList.foldlM (queueFileAdd targetList)
    { queueList := List.replicate targetList.length [] }
  return (build.result, build.queueList.map queueSort)

end Build

section Serve

structure RestoreJobData where
  repoIdx : Nat
  manifest : Manifest
  queueList : List (List ManifestFile)
  zeroExp : Option (RegExp.Exp Char)
  cipherSubPass : Option Str

/-- The options of the command. -/
structure RestoreOption where
  delta : Bool
  force : Bool

/-- The parameters of `PROTOCOL_COMMAND_RESTORE_FILE`. -/
structure RestoreFileParam where
  repoFile : Str
  repoIdx : Nat
  repoFileReference : Str
  repoFileCompressType : CompressType
  pgFile : Str
  pgFileChecksum : Str
  pgFileZero : Bool
  pgFileSize : Nat
  pgFileModified : Int
  pgFileMode : Nat
  pgFileUser : Option Str
  pgFileGroup : Option Str
  copyTimeBegin : Int
  delta : Bool
  deltaForce : Bool
  cipherPass : Option Str

structure RestoreJob where
  file : ManifestFile
  key : Str
  param : RestoreFileParam

def pgControlName : Str := manifestTargetPgData ++ "/global/pg_control".toList

def restoreFileZeroed (manifestName : Str) (zeroExp : Option (RegExp.Exp Char)) : Bool :=
  match zeroExp with
  | none => false
  | some exp =>
    RegExp.regExpMatch exp manifestName && ! ("/PG_VERSION".toList.isSuffixOf manifestName)

/-- `pg_control` is restored under a temporary name. -/
def restoreFilePgPath (manifest : Manifest) (manifestName : Str) : Except Error Str := do
  let base ← manifestTargetBase manifest
  let path ← notNull base.path
  let name ← notNull (manifestPathPg manifestName)
  let result := path ++ '/' :: name
  return if manifestName = pgControlName then result ++ ".pgbackrest.tmp".toList else result

def restoreJob (option : RestoreOption) (jobData : RestoreJobData) (file : ManifestFile) :
    Except Error RestoreJob := do
  let pgFile ← restoreFilePgPath jobData.manifest file.name
  return {
    file := file
    key := file.name
    param := {
      repoFile := file.name
      repoIdx := jobData.repoIdx
      repoFileReference := file.reference.getD jobData.manifest.data.backupLabel
      repoFileCompressType := jobData.manifest.data.backupOptionCompressType
      pgFile := pgFile
      pgFileChecksum := file.checksumSha1
      pgFileZero := restoreFileZeroed file.name jobData.zeroExp
      pgFileSize := file.size
      pgFileModified := file.timestamp
      pgFileMode := file.mode
      pgFileUser := file.user
      pgFileGroup := file.group
      copyTimeBegin := jobData.manifest.data.backupTimestampCopyStart
      delta := option.delta
      deltaForce := option.delta && option.force
      cipherPass := jobData.cipherSubPass } }

def restoreJobQueueNext (clientIdx : Nat) (queueIdx : Int) (queueTotal : Nat) : Int :=
  let queueIdx := queueIdx + if clientIdx % 2 ≠ 0 then -1 else 1
  if queueIdx < 0 then queueTotal - 1
  else if queueIdx = queueTotal then 0
  else queueIdx

inductive Stop where
  | fuel
  | error (e : Error)
  /-- `THROW_CODE` with the error of a job. -/
  | jobError (errorCode : Nat) (errorMessage : Str)
  | divideByZero

/-- The loop of `restoreJobCallback`, with fuel for one round each. -/
def queueScan (option : RestoreOption) (jobData : RestoreJobData) (clientIdx : Nat)
    (queueEnd : Int) : Nat → Int → Except Stop (Option RestoreJob × RestoreJobData)
  | 0, _ => .error .fuel
  | fuel + 1, queueIdx =>
    match lstGet jobData.queueList queueIdx.toNat with
    | .error e => .error (.error e)
    | .ok (file :: rest) =>
      match restoreJob option jobData file with
      | .error e => .error (.error e)
      | .ok job =>
        .ok (some job, { jobData with queueList := jobData.queueList.set queueIdx.toNat rest })
    | .ok [] =>
      let queueNext := restoreJobQueueNext clientIdx queueIdx jobData.queueList.length
      if queueNext ≠ queueEnd then queueScan option jobData clientIdx queueEnd fuel queueNext
      else .ok (none, jobData)

def queueStart (jobData : RestoreJobData) (clientIdx : Nat) : Nat :=
  clientIdx % jobData.queueList.length

def restoreJobCallback (option : RestoreOption) (fuel : Nat) (jobData : RestoreJobData)
    (clientIdx : Nat) : Except Stop (Option RestoreJob × RestoreJobData) :=
  queueScan option jobData clientIdx (queueStart jobData clientIdx) fuel
    (queueStart jobData clientIdx)

/-- The clients ask for work one after the other. -/
def serve (option : RestoreOption) (fuel : Nat) : RestoreJobData → List Nat →
    Except Stop (List (Option RestoreJob) × RestoreJobData)
  | jobData, [] => .ok ([], jobData)
  | jobData, clientIdx :: requests => do
    let (job, jobData) ← restoreJobCallback option fuel jobData clientIdx
    let (handed, jobData) ← serve option fuel jobData requests
    return (job :: handed, jobData)

end Serve

section Results

/-- A job that a client has finished. -/
structure JobResult where
  key : Str
  errorCode : Nat := 0
  errorMessage : Str := []

def fileFind (manifest : Manifest) (name : Str) : Except Stop ManifestFile :=
  match manifestFileFindDefault manifest name with
  | some file => .ok file
  | none => .error (.error (fileFindError name))

/-- The size that is restored so far, and the progress in percent that is logged. -/
def restoreJobResult (manifest : Manifest) (job : JobResult) (sizeTotal sizeRestored : Nat) :
    Except Stop (Nat × Nat) :=
  if job.errorCode = 0 then do
    let file ← fileFind manifest job.key
    let sizeRestored := (sizeRestored + file.size) % 2 ^ 64
    if sizeTotal = 0 then throw .divideByZero
    else return (sizeRestored, sizeRestored * 100 % 2 ^ 64 / sizeTotal)
  else throw (.jobError job.errorCode job.errorMessage)

def restoreResults (manifest : Manifest) (sizeTotal : Nat) : Nat → List JobResult →
    Except Stop (List Nat)
  | _, [] => .ok []
  | sizeRestored, job :: jobs => do
    let (sizeRestored, progress) ← restoreJobResult manifest job sizeTotal sizeRestored
    let later ← restoreResults manifest sizeTotal sizeRestored jobs
    return progress :: later

end Results

section Queues

def sizeSum (files : List ManifestFile) : Nat := (files.map (·.size)).sum

theorem sizeSum_cons (file : ManifestFile) (files : List ManifestFile) :
    sizeSum (file :: files) = file.size + sizeSum files := List.sum_cons

def Matched (manifest : Manifest) (file : ManifestFile) : Prop :=
  ∃ target ∈ queueTargetList manifest, strBeginsWith file.name target = true

theorem queueFileAdd_matched {manifest : Manifest} {file : ManifestFile} {build : QueueBuild}
    (matched : Matched manifest file)
    (length : build.queueList.length = (queueTargetList manifest).length) :
    ∃ next, queueFileAdd (queueTargetList manifest) build file = .ok next ∧
      next.queueList.length = (queueTargetList manifest).length ∧
      next.queueList.flatten.Perm (build.queueList.flatten ++ [file]) ∧
      next.result = (build.result + file.size) % 2 ^ 64 := by
  obtain ⟨target, member, begins⟩ := matched
  have found : ((queueTargetList manifest).findIdx? (strBeginsWith file.name)).isSome = true := by
    rw [List.findIdx?_isSome]
    exact List.any_eq_true.mpr ⟨target, member, begins⟩
  obtain ⟨targetIdx, found⟩ := Option.isSome_iff_exists.mp found
  obtain ⟨inside, -⟩ := List.findIdx?_eq_some_iff_getElem.mp found
  unfold queueFileAdd
  rw [found]
  refine ⟨_, rfl, ?_, ?_, rfl⟩
  · dsimp only
    rw [List.length_modify, length]
  · exact flatten_modify_perm (length.symm ▸ inside) file

theorem queueFileAdd_foldlM {manifest : Manifest} {files : List ManifestFile} {build : QueueBuild}
    (matched : ∀ file ∈ files, Matched manifest file)
    (length : build.queueList.length = (queueTargetList manifest).length)
    (small : build.result < 2 ^ 64) :
    ∃ next, files.foldlM (queueFileAdd (queueTargetList manifest)) build = .ok next ∧
      next.queueList.length = (queueTargetList manifest).length ∧
      next.queueList.flatten.Perm (build.queueList.flatten ++ files) ∧
      next.result = (build.result + sizeSum files) % 2 ^ 64 := by
  induction files generalizing build with
  | nil =>
    refine ⟨build, rfl, length, ?_, ?_⟩
    · rw [List.append_nil]
    · exact (Nat.mod_eq_of_lt small).symm
  | cons file files ih =>
    obtain ⟨first, rest⟩ := List.forall_mem_cons.mp matched
    obtain ⟨middle, step, length', perm, result⟩ := queueFileAdd_matched first length
    obtain ⟨next, run, length'', perm', result'⟩ :=
      ih rest length' (result ▸ Nat.mod_lt _ (by decide))
    refine ⟨next, ?_, length'', ?_, ?_⟩
    · rw [List.foldlM_cons, step]
      exact run
    · refine perm'.trans ((perm.append_right files).trans ?_)
      simp
    · rw [result', result, Nat.mod_add_mod, sizeSum_cons, Nat.add_assoc]

theorem map_queueSort_perm (queueList : List (List ManifestFile)) :
    (queueList.map queueSort).flatten.Perm queueList.flatten := by
  induction queueList with
  | nil => exact List.Perm.refl _
  | cons queue others ih => exact (List.mergeSort_perm queue _).append ih

theorem restoreProcessQueue_spec {manifest : Manifest}
    (matched : ∀ file ∈ manifest.fileList, Matched manifest file) :
    ∃ queueList, restoreProcessQueue manifest =
        .ok (sizeSum manifest.fileList % 2 ^ 64, queueList) ∧
      0 < queueList.length ∧ queueList.flatten.Perm manifest.fileList := by
  obtain ⟨build, run, length, perm, result⟩ :=
    @queueFileAdd_foldlM manifest manifest.fileList
      { queueList := List.replicate (queueTargetList manifest).length [] } matched
      List.length_replicate (Nat.two_pow_pos 64)
  refine ⟨build.queueList.map queueSort, ?_, ?_, ?_⟩
  · unfold restoreProcessQueue
    dsimp only
    rw [run]
    dsimp only [bind, Except.bind, pure, Except.pure]
    rw [result, Nat.zero_add]
  · rw [List.length_map, length, queueTargetList, List.length_cons]
    omega
  · refine (map_queueSort_perm _).trans (perm.trans ?_)
    simp

end Queues

section Requests
variable {option : RestoreOption} {jobData : RestoreJobData} {clientIdx : Nat}

/-- What a request gives: the first file of some queue, or nothing when all queues are empty. -/
def Found (option : RestoreOption) (jobData : RestoreJobData)
    (answer : Option RestoreJob × RestoreJobData) : Prop :=
  (∃ queueIdx file rest job, jobData.queueList[queueIdx]? = some (file :: rest) ∧
    restoreJob option jobData file = .ok job ∧
    answer = (some job, { jobData with queueList := jobData.queueList.set queueIdx rest })) ∨
  ((∀ queue ∈ jobData.queueList, queue = []) ∧ answer = (none, jobData))

structure Ready (option : RestoreOption) (jobData : RestoreJobData) : Prop where
  queues : 0 < jobData.queueList.length
  jobs : ∀ queue ∈ jobData.queueList, ∀ file ∈ queue,
    ∃ job, restoreJob option jobData file = .ok job

theorem restoreJobQueueNext_eq {queueIdx size : Nat} (h : queueIdx < size) :
    restoreJobQueueNext clientIdx queueIdx size = ((queueIdx + stride clientIdx size) % size : Nat) :=
  backupJobQueueNext_eq h

/-- The place of a client's walk after `k` steps. -/
def queueAt (jobData : RestoreJobData) (clientIdx k : Nat) : Nat :=
  RingScan.place jobData.queueList.length (queueStart jobData clientIdx)
    (stride clientIdx jobData.queueList.length) k

theorem queueStart_lt (ready : Ready option jobData) :
    queueStart jobData clientIdx < jobData.queueList.length :=
  Nat.mod_lt _ ready.queues

theorem queueNext_eq (ready : Ready option jobData) (k : Nat) :
    restoreJobQueueNext clientIdx (queueAt jobData clientIdx k) jobData.queueList.length =
      queueAt jobData clientIdx (k + 1) := by
  have inside : queueAt jobData clientIdx k < jobData.queueList.length :=
    RingScan.place_lt ready.queues k
  have next := @restoreJobQueueNext_eq clientIdx _ _ inside
  rw [queueAt, RingScan.place_succ] at next
  exact next

theorem lstGet_ok {α : Type} {items : List α} {i : Nat} (h : i < items.length) :
    lstGet items i = .ok items[i] := by
  unfold lstGet
  rw [List.getElem?_eq_getElem h]

/-- The scan, `k` empty queues after its start. -/
theorem queueScan_spec (ready : Ready option jobData) {left k fuel : Nat}
    (sum : k + left = jobData.queueList.length) (more : 0 < left) (enough : left ≤ fuel)
    (empty : ∀ j < k, jobData.queueList[queueAt jobData clientIdx j]? = some []) :
    ∃ answer, queueScan option jobData clientIdx (queueStart jobData clientIdx) fuel
      (queueAt jobData clientIdx k) = .ok answer ∧ Found option jobData answer := by
  have coprime := @coprime_stride clientIdx _ ready.queues
  induction left generalizing k fuel with
  | zero => omega
  | succ left ih =>
    obtain ⟨fuel, rfl⟩ : ∃ f, fuel = f + 1 := ⟨fuel - 1, by omega⟩
    have inside : queueAt jobData clientIdx k < jobData.queueList.length :=
      RingScan.place_lt ready.queues k
    unfold queueScan
    rw [Int.toNat_natCast, lstGet_ok inside]
    cases queue : jobData.queueList[queueAt jobData clientIdx k] with
    | cons file rest =>
      have here : jobData.queueList[queueAt jobData clientIdx k]? = some (file :: rest) := by
        rw [List.getElem?_eq_getElem inside, queue]
      obtain ⟨job, made⟩ := ready.jobs _ (List.mem_of_getElem? here) file List.mem_cons_self
      dsimp only
      rw [made]
      exact ⟨_, rfl, Or.inl ⟨_, file, rest, job, here, made, rfl⟩⟩
    | nil =>
      have empty' : ∀ j < k + 1, jobData.queueList[queueAt jobData clientIdx j]? = some [] := by
        intro j lt
        by_cases last : j = k
        · rw [last, List.getElem?_eq_getElem inside, queue]
        · exact empty j (by omega)
      dsimp only
      rw [queueNext_eq ready]
      by_cases back : (queueAt jobData clientIdx (k + 1) : Int) = queueStart jobData clientIdx
      · -- The walk is back at its start, so it has been at every queue.
        have around : k + 1 = jobData.queueList.length := by
          by_contra short
          exact RingScan.place_ne_start coprime (queueStart_lt ready) (by omega : 0 < k + 1)
            (by omega) (Int.ofNat.inj back)
        rw [if_neg (not_not.mpr back)]
        refine ⟨_, rfl, Or.inr ⟨?_, rfl⟩⟩
        intro q hq
        obtain ⟨p, lt, rfl⟩ := List.getElem_of_mem hq
        obtain ⟨j, visited, rfl⟩ :=
          @RingScan.exists_place _ (queueStart jobData clientIdx) _ coprime p lt
        have none := empty' j (by omega)
        exact Option.some.inj ((List.getElem?_eq_getElem lt).symm.trans none)
      · have more' : 0 < left := by
          by_contra none
          apply back
          have around : k + 1 = jobData.queueList.length := by omega
          rw [around, queueAt, RingScan.place_size (queueStart_lt ready)]
        rw [if_pos back]
        exact ih (by omega) more' (by omega) empty'

/-- A request ends and gives what there is. -/
theorem restoreJobCallback_spec (ready : Ready option jobData) {fuel : Nat}
    (enough : jobData.queueList.length ≤ fuel) :
    ∃ answer, restoreJobCallback option fuel jobData clientIdx = .ok answer ∧
      Found option jobData answer := by
  have start : queueAt jobData clientIdx 0 = queueStart jobData clientIdx :=
    RingScan.place_zero (queueStart_lt ready)
  have spec := @queueScan_spec option jobData clientIdx ready _ 0 fuel (Nat.zero_add _) ready.queues
    enough nofun
  rwa [start] at spec

theorem restoreJob_file {file : ManifestFile} {job : RestoreJob}
    (made : restoreJob option jobData file = .ok job) : job.file = file := by
  unfold restoreJob at made
  obtain ⟨pgFile, -, made⟩ := except_bind_ok made
  cases made
  rfl

def handedFiles (handed : List (Option RestoreJob)) : List ManifestFile :=
  (handed.filterMap id).map RestoreJob.file

theorem Found.step {answer : Option RestoreJob × RestoreJobData} (found : Found option jobData answer)
    (ready : Ready option jobData) : Ready option answer.2 ∧
      answer.2.queueList.length = jobData.queueList.length ∧
      (handedFiles [answer.1] ++ answer.2.queueList.flatten).Perm jobData.queueList.flatten := by
  rcases found with ⟨queueIdx, file, rest, job, here, made, rfl⟩ | ⟨-, rfl⟩
  · refine ⟨⟨?_, ?_⟩, List.length_set, ?_⟩
    · dsimp only
      rw [List.length_set]
      exact ready.queues
    · intro queue hq other ho
      rcases List.mem_or_eq_of_mem_set hq with hq | rfl
      · exact ready.jobs queue hq other ho
      · exact ready.jobs _ (List.mem_of_getElem? here) other (List.mem_cons_of_mem _ ho)
    · have files : handedFiles [some job] = [file] := by
        rw [← restoreJob_file made]
        rfl
      dsimp only
      rw [files]
      exact flatten_set_perm here
  · exact ⟨ready, rfl, List.Perm.refl _⟩

theorem handedFiles_cons (job : Option RestoreJob) (handed : List (Option RestoreJob)) :
    handedFiles (job :: handed) = handedFiles [job] ++ handedFiles handed := by
  cases job <;> rfl

/-- Any clients in any order: no file is lost and none is given twice. -/
theorem serve_spec {fuel : Nat} {requests : List Nat} (ready : Ready option jobData)
    (enough : jobData.queueList.length ≤ fuel) :
    ∃ handed final, serve option fuel jobData requests = .ok (handed, final) ∧
      Ready option final ∧ final.queueList.length = jobData.queueList.length ∧
      (handedFiles handed ++ final.queueList.flatten).Perm jobData.queueList.flatten := by
  induction requests generalizing jobData with
  | nil => exact ⟨[], jobData, rfl, ready, rfl, List.Perm.refl _⟩
  | cons clientIdx requests ih =>
    obtain ⟨⟨job, middle⟩, call, found⟩ := @restoreJobCallback_spec option jobData clientIdx ready _ enough
    obtain ⟨ready', length, perm⟩ := found.step ready
    obtain ⟨handed, final, calls, ready'', length', perm'⟩ := ih ready' (length ▸ enough)
    refine ⟨job :: handed, final, ?_, ready'', length'.trans length, ?_⟩
    · unfold serve
      rw [call]
      dsimp only [bind, Except.bind]
      rw [calls]
      rfl
    · rw [handedFiles_cons, List.append_assoc]
      exact (perm'.append_left _).trans perm

end Requests

section Progress
variable {manifest : Manifest}

def jobDone (file : ManifestFile) : JobResult := { key := file.name }

/-- What the results log when the total is not zero. -/
def progressList (sizeTotal : Nat) : Nat → List ManifestFile → List Nat
  | _, [] => []
  | sizeRestored, file :: files =>
    let sizeRestored := (sizeRestored + file.size) % 2 ^ 64
    sizeRestored * 100 % 2 ^ 64 / sizeTotal :: progressList sizeTotal sizeRestored files

theorem restoreJobResult_done (names : (manifest.fileList.map (·.name)).Nodup)
    {file : ManifestFile} (listed : file ∈ manifest.fileList) (sizeTotal sizeRestored : Nat) :
    restoreJobResult manifest (jobDone file) sizeTotal sizeRestored =
      if sizeTotal = 0 then .error .divideByZero
      else .ok ((sizeRestored + file.size) % 2 ^ 64,
        (sizeRestored + file.size) % 2 ^ 64 * 100 % 2 ^ 64 / sizeTotal) := by
  have found : fileFind manifest file.name = .ok file := by
    unfold fileFind manifestFileFindDefault
    rw [(KeyedList.find_iff names).mpr ⟨listed, rfl⟩]
  unfold restoreJobResult jobDone
  rw [if_pos rfl]
  dsimp only
  rw [found]
  rfl

theorem restoreResults_done (names : (manifest.fileList.map (·.name)).Nodup) {files : List ManifestFile}
    (listed : ∀ file ∈ files, file ∈ manifest.fileList) {sizeTotal : Nat} (total : sizeTotal ≠ 0)
    (sizeRestored : Nat) :
    restoreResults manifest sizeTotal sizeRestored (files.map jobDone) =
      .ok (progressList sizeTotal sizeRestored files) := by
  induction files generalizing sizeRestored with
  | nil => rfl
  | cons file files ih =>
    obtain ⟨first, rest⟩ := List.forall_mem_cons.mp listed
    rw [List.map_cons]
    unfold restoreResults
    rw [restoreJobResult_done names first, if_neg total]
    dsimp only [bind, Except.bind]
    rw [ih rest]
    rfl

theorem restoreResults_zero (names : (manifest.fileList.map (·.name)).Nodup) {file : ManifestFile}
    {files : List ManifestFile} (listed : file ∈ manifest.fileList) (sizeRestored : Nat) :
    restoreResults manifest 0 sizeRestored ((file :: files).map jobDone) = .error .divideByZero := by
  rw [List.map_cons]
  unfold restoreResults
  rw [restoreJobResult_done names listed, if_pos rfl]
  rfl

/-- One entry for every result: the size of the files so far. -/
theorem mem_progressList {sizeTotal sizeRestored p : Nat} {files : List ManifestFile} :
    p ∈ progressList sizeTotal sizeRestored files ↔ ∃ front rest, files = front ++ rest ∧
      front ≠ [] ∧ p = (sizeRestored + sizeSum front) % 2 ^ 64 * 100 % 2 ^ 64 / sizeTotal := by
  induction files generalizing sizeRestored with
  | nil =>
    constructor
    · exact nofun
    · rintro ⟨front, rest, split, some, -⟩
      exact absurd (List.append_eq_nil_iff.mp split.symm).1 some
  | cons file files ih =>
    have sum : ∀ front, ((sizeRestored + file.size) % 2 ^ 64 + sizeSum front) % 2 ^ 64 =
        (sizeRestored + sizeSum (file :: front)) % 2 ^ 64 := by
      intro front
      rw [Nat.mod_add_mod, sizeSum_cons, Nat.add_assoc]
    unfold progressList
    rw [List.mem_cons, ih]
    constructor
    · rintro (rfl | ⟨front, rest, rfl, -, rfl⟩)
      · exact ⟨[file], files, rfl, nofun, rfl⟩
      · refine ⟨file :: front, rest, rfl, nofun, ?_⟩
        rw [sum]
    · rintro ⟨front, rest, split, some, rfl⟩
      cases front with
      | nil => exact absurd rfl some
      | cons first front =>
        obtain ⟨rfl, rfl⟩ := List.cons.inj split
        by_cases last : front = []
        · subst last
          exact Or.inl rfl
        · refine Or.inr ⟨front, rest, rfl, last, ?_⟩
          rw [sum]

theorem sizeSum_perm {files files' : List ManifestFile} (perm : files.Perm files') :
    sizeSum files = sizeSum files' := (perm.map _).sum_nat

/-- Every order of the results keeps within 100 percent. -/
theorem progress_iff {sizeTotal : Nat} (total : 0 < sizeTotal) :
    (∀ files : List ManifestFile, files.Perm manifest.fileList →
        ∀ p ∈ progressList sizeTotal 0 files, p ≤ 100) ↔
      ∀ files : List ManifestFile, files.Sublist manifest.fileList →
        100 * sizeSum files % 2 ^ 64 < 101 * sizeTotal := by
  have value : ∀ files, (0 + sizeSum files) % 2 ^ 64 * 100 % 2 ^ 64 / sizeTotal ≤ 100 ↔
      100 * sizeSum files % 2 ^ 64 < 101 * sizeTotal := by
    intro files
    rw [Nat.zero_add, Nat.mod_mul_mod, Nat.mul_comm _ 100, ← Nat.lt_succ_iff,
      Nat.div_lt_iff_lt_mul total]
  constructor
  · intro bounded files sub
    by_cases none : files = []
    · subst none
      exact Nat.mul_pos (by decide) total
    · obtain ⟨rest, perm⟩ := sub.exists_perm_append
      exact (value files).mp (bounded (files ++ rest) perm.symm _
        (mem_progressList.mpr ⟨files, rest, rfl, none, rfl⟩))
  · intro small files perm p hp
    obtain ⟨front, rest, rfl, -, rfl⟩ := mem_progressList.mp hp
    have sub : front.Subperm manifest.fileList :=
      (List.sublist_append_left front rest).subperm.trans perm.subperm
    obtain ⟨front', perm', sub'⟩ := sub
    rw [value, sizeSum_perm perm'.symm]
    exact small front' sub'

end Progress

section Sound
variable {option : RestoreOption} {manifest : Manifest}

/-- In every order of requests a file is given at most once, and a request that gets no job finds all
queues empty and all files given. -/
def HandedOnce (option : RestoreOption) (fuel : Nat) (jobData : RestoreJobData) : Prop :=
  ∀ requests, ∃ handed final, serve option fuel jobData requests = .ok (handed, final) ∧
    (handedFiles handed ++ final.queueList.flatten).Perm jobData.queueList.flatten ∧
    ∀ clientIdx, ∃ job next, restoreJobCallback option fuel final clientIdx = .ok (job, next) ∧
      (job = none ↔ ∀ queue ∈ final.queueList, queue = []) ∧
      (job = none → (handedFiles handed).Perm jobData.queueList.flatten)

/-- The results of all jobs in any order: the total is not zero and the progress at most 100. -/
def ProgressSound (manifest : Manifest) (sizeTotal : Nat) : Prop :=
  ∀ files : List ManifestFile, files.Perm manifest.fileList →
    ∃ progress, restoreResults manifest sizeTotal 0 (files.map jobDone) = .ok progress ∧
      ∀ p ∈ progress, p ≤ 100

def RestoreSound (option : RestoreOption) (manifest : Manifest) : Prop :=
  ∃ sizeTotal queueList, restoreProcessQueue manifest = .ok (sizeTotal, queueList) ∧
    queueList.flatten.Perm manifest.fileList ∧
    (∀ jobData : RestoreJobData, jobData.manifest = manifest → jobData.queueList = queueList →
      ∀ fuel, queueList.length ≤ fuel → HandedOnce option fuel jobData) ∧
    ProgressSound manifest sizeTotal

/-- The sizes of the files have a sum that fits 64 bits and is not zero. A sum that wraps around
must keep every part of the files within the total. -/
def SizesFit (manifest : Manifest) : Prop :=
  manifest.fileList = [] ∨
    (0 < sizeSum manifest.fileList ∧ sizeSum manifest.fileList < 2 ^ 64) ∨
    (2 ^ 64 ≤ sizeSum manifest.fileList ∧ ∀ files : List ManifestFile,
      files.Sublist manifest.fileList →
        100 * sizeSum files % 2 ^ 64 < 101 * (sizeSum manifest.fileList % 2 ^ 64))

theorem manifestPathPg_matched {file : ManifestFile} (matched : Matched manifest file) :
    ∃ name, manifestPathPg file.name = some name := by
  obtain ⟨target, member, begins⟩ := matched
  have slash : '/' ∈ target := by
    rcases List.mem_cons.mp member with rfl | member
    · simp
    · obtain ⟨other, -, rfl⟩ := List.mem_map.mp member
      simp
  have below : file.name ≠ manifestTargetPgData := by
    intro same
    have front : target <+: file.name := List.isPrefixOf_iff_prefix.mp begins
    have none : '/' ∉ manifestTargetPgData := by decide
    exact none (same ▸ front.subset slash)
  unfold manifestPathPg
  by_cases data : strBeginsWith file.name (manifestTargetPgData ++ ['/']) = true
  · exact ⟨_, if_pos data⟩
  · rw [if_neg data, if_pos below]
    exact ⟨_, rfl⟩

theorem restoreJob_matched {jobData : RestoreJobData} {file : ManifestFile}
    {base : ManifestTarget} {path : Str} (hbase : manifestTargetBase jobData.manifest = .ok base)
    (hpath : base.path = some path) (matched : Matched jobData.manifest file) :
    ∃ job, restoreJob option jobData file = .ok job := by
  obtain ⟨name, hname⟩ := manifestPathPg_matched matched
  unfold restoreJob restoreFilePgPath
  rw [hbase]
  dsimp only [bind, Except.bind]
  rw [hpath, hname]
  exact ⟨_, rfl⟩

theorem handedOnce_of_queues {jobData : RestoreJobData} {fuel : Nat} (ready : Ready option jobData)
    (enough : jobData.queueList.length ≤ fuel) : HandedOnce option fuel jobData := by
  intro requests
  obtain ⟨handed, final, calls, ready', length, perm⟩ := @serve_spec option jobData fuel requests ready enough
  refine ⟨handed, final, calls, perm, fun clientIdx => ?_⟩
  obtain ⟨⟨job, next⟩, call, found⟩ :=
    @restoreJobCallback_spec option final clientIdx ready' fuel (length ▸ enough)
  have none_iff : job = none ↔ ∀ queue ∈ final.queueList, queue = [] := by
    rcases found with ⟨queueIdx, file, rest, given, here, -, same⟩ | ⟨empty, same⟩
    · cases same
      constructor
      · exact nofun
      · intro empty
        exact absurd (empty _ (List.mem_of_getElem? here)) (List.cons_ne_nil _ _)
    · cases same
      exact ⟨fun _ => empty, fun _ => rfl⟩
  refine ⟨job, next, call, none_iff, fun none => ?_⟩
  have empty : final.queueList.flatten = [] := List.flatten_eq_nil_iff.mpr (none_iff.mp none)
  rwa [empty, List.append_nil] at perm

theorem progressSound_iff (names : (manifest.fileList.map (·.name)).Nodup) :
    ProgressSound manifest (sizeSum manifest.fileList % 2 ^ 64) ↔ SizesFit manifest := by
  unfold SizesFit
  by_cases none : manifest.fileList = []
  · refine iff_of_true ?_ (Or.inl none)
    intro files perm
    rw [none] at perm
    rw [perm.eq_nil]
    exact ⟨[], rfl, nofun⟩
  rw [or_iff_right none]
  by_cases total : sizeSum manifest.fileList % 2 ^ 64 = 0
  · constructor
    · intro sound
      exfalso
      obtain ⟨file, files, split⟩ := List.exists_cons_of_ne_nil none
      obtain ⟨progress, run, -⟩ := sound manifest.fileList (List.Perm.refl _)
      have listed : file ∈ manifest.fileList := split ▸ List.mem_cons_self
      have stops : restoreResults manifest 0 0 (manifest.fileList.map jobDone) =
          .error .divideByZero := by
        rw [split]
        exact restoreResults_zero names listed 0
      rw [total, stops] at run
      cases run
    · rintro (⟨pos, small⟩ | ⟨-, parts⟩)
      · rw [Nat.mod_eq_of_lt small] at total
        omega
      · have empty := parts [] (List.nil_sublist _)
        rw [total] at empty
        exact absurd empty (Nat.not_lt_zero _)
  · have pos : 0 < sizeSum manifest.fileList % 2 ^ 64 := Nat.pos_of_ne_zero total
    have lists : ProgressSound manifest (sizeSum manifest.fileList % 2 ^ 64) ↔
        ∀ files : List ManifestFile, files.Perm manifest.fileList →
          ∀ p ∈ progressList (sizeSum manifest.fileList % 2 ^ 64) 0 files, p ≤ 100 := by
      constructor
      · intro sound files perm
        obtain ⟨progress, run, bounded⟩ := sound files perm
        rw [restoreResults_done names (fun file hf => perm.mem_iff.mp hf) total] at run
        cases run
        exact bounded
      · intro bounded files perm
        exact ⟨_, restoreResults_done names (fun file hf => perm.mem_iff.mp hf) total 0,
          bounded files perm⟩
    rw [lists, progress_iff pos]
    by_cases small : sizeSum manifest.fileList < 2 ^ 64
    · refine iff_of_true ?_ (Or.inl ⟨?_, small⟩)
      · intro files sub
        have part : sizeSum files ≤ sizeSum manifest.fileList := by
          obtain ⟨rest, perm⟩ := sub.exists_perm_append
          rw [sizeSum_perm perm, sizeSum, sizeSum, List.map_append, List.sum_append]
          omega
        have wrapped := Nat.mod_le (100 * sizeSum files) (2 ^ 64)
        rw [Nat.mod_eq_of_lt small] at pos ⊢
        omega
      · rwa [Nat.mod_eq_of_lt small] at pos
    · constructor
      · exact fun parts => Or.inr ⟨by omega, parts⟩
      · rintro (⟨-, fits⟩ | ⟨-, parts⟩)
        · exact absurd fits small
        · exact parts

/-- The queues always hold and hand out every file once. The progress is sound exactly for the sizes
that fit. -/
theorem restoreSound_iff (option : RestoreOption) (manifest : Manifest)
    (names : (manifest.fileList.map (·.name)).Nodup)
    (matched : ∀ file ∈ manifest.fileList, Matched manifest file) {base : ManifestTarget} {path : Str}
    (hbase : manifestTargetBase manifest = .ok base) (hpath : base.path = some path) :
    RestoreSound option manifest ↔ SizesFit manifest := by
  obtain ⟨queueList, built, queues, perm⟩ := restoreProcessQueue_spec matched
  rw [← progressSound_iff names]
  constructor
  · rintro ⟨sizeTotal, queueList', built', -, -, progress⟩
    rw [built] at built'
    cases built'
    exact progress
  · intro progress
    refine ⟨_, queueList, built, perm, ?_, progress⟩
    rintro jobData rfl rfl fuel enough
    refine handedOnce_of_queues ⟨queues, ?_⟩ enough
    intro queue hq file hf
    have listed : file ∈ jobData.manifest.fileList :=
      perm.mem_iff.mp (List.mem_flatten.mpr ⟨queue, hq, hf⟩)
    exact restoreJob_matched hbase hpath (matched file listed)

def pgDataTarget : ManifestTarget := ⟨manifestTargetPgData, .path, some "/pg".toList, none, 0, none⟩

/-- A backup of files without content. -/
def emptyFile : Manifest where
  fileList := [{ name := "pg_data/postgresql.auto.conf".toList }]
  targetList := [pgDataTarget]

/-- The result of the first job divides by a total of zero. -/
theorem restoreResults_divideByZero :
    (∃ queueList, restoreProcessQueue emptyFile = .ok (0, queueList)) ∧
      restoreResults emptyFile 0 0 (emptyFile.fileList.map jobDone) = .error .divideByZero ∧
      ¬ RestoreSound ⟨false, false⟩ emptyFile := by
  have built : ∃ queueList, restoreProcessQueue emptyFile = .ok (0, queueList) := ⟨_, by rfl⟩
  have stops : restoreResults emptyFile 0 0 (emptyFile.fileList.map jobDone) =
      .error .divideByZero := by rfl
  refine ⟨built, stops, ?_⟩
  rintro ⟨sizeTotal, queueList, same, -, -, progress⟩
  obtain ⟨queueList', built⟩ := built
  rw [built] at same
  cases same
  obtain ⟨list, run, -⟩ := progress _ (List.Perm.refl _)
  rw [stops] at run
  cases run

def tablespaceManifest : Manifest where
  fileList := [{ name := "pg_data/PG_VERSION".toList, size := 3 },
    { name := "pg_tblspc/1/PG_9.1_201105231/1/16384".toList, size := 8192 }]
  targetList := [pgDataTarget, ⟨"pg_tblspc/1".toList, .link, some "/ts1".toList, none, 1, none⟩]

theorem restoreSound_tablespaceManifest : RestoreSound ⟨false, false⟩ tablespaceManifest := by
  have matched : ∀ file ∈ tablespaceManifest.fileList, Matched tablespaceManifest file := by
    intro file hf
    have begins : ∀ file ∈ tablespaceManifest.fileList,
        (queueTargetList tablespaceManifest).any (strBeginsWith file.name) = true := by decide +kernel
    exact List.any_eq_true.mp (begins file hf)
  exact (restoreSound_iff ⟨false, false⟩ tablespaceManifest (by decide +kernel) matched
    (show manifestTargetBase tablespaceManifest = .ok pgDataTarget by rfl) rfl).mpr (Or.inr (Or.inl (by decide +kernel)))

end Sound

end RestoreQueue
