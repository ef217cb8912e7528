import Mathlib.Data.List.Sort
import Backrest.RingScan
import Backrest.BackupManifest
import Backrest.Parallel

/-!
# Backup queues

The files of a backup wait in queues, one for each target and, when the backup
is from a standby, one more in front for the files that only the primary has. A
client starts at a queue of its own and walks around the others, forward or back,
until it finds a file.
-/

namespace BackupQueue

open Text BackupCommon BackupManifest

/-! ## Building the queues -/

def manifestTargetPgData : Str := "pg_data".toList
def manifestTargetPgTblSpc : Str := "pg_tblspc".toList
def pgControlName : Str := manifestTargetPgData ++ "/global/pg_control".toList

/-- The options of the command that the queues depend on. -/
structure BackupOption where
  backupStandby : Bool
  delta : Bool
  online : Bool

def strCmp (this compare : Str) : Int :=
  if this < compare then -1 else if this = compare then 0 else 1

def backupProcessQueueComparator (item1 item2 : ManifestFile) : Int :=
  if item1.size < item2.size then -1
  else if item1.size > item2.size then 1
  else strCmp item1.name item2.name

/-- `lstSort` with `sortOrderDesc`. -/
def queueSort (queue : List ManifestFile) : List ManifestFile :=
  queue.mergeSort fun item1 item2 => decide (0 ≤ backupProcessQueueComparator item1 item2)

structure QueueBuild where
  queueList : List (List ManifestFile)
  result : Nat := 0
  fileTotal : Nat := 0
  pgControlFound : Bool := false

/-- The directories a file may be below, each with its queue. -/
def queueTargetList (manifest : Manifest) : List Str :=
  (manifestTargetPgData ++ ['/']) ::
    (manifest.targetList.filter (fun target => target.tablespaceId ≠ 0)).map
      (fun target => target.name ++ ['/'])

def queueOffset (backupStandby : Bool) : Nat := if backupStandby then 1 else 0

/-- A file is left where it is unless the backup has to store or check it. -/
def fileSkip (option : BackupOption) (file : ManifestFile) : Bool :=
  file.reference.isSome && (!option.delta || file.size = 0)

def fileQueueIdx (option : BackupOption) (targetList : List Str) (file : ManifestFile) :
    Except Error Nat :=
  if option.backupStandby && file.primary then .ok 0
  else
    match targetList.findIdx? (strBeginsWith file.name) with
    | some targetIdx => .ok (targetIdx + queueOffset option.backupStandby)
    | none => .error ⟨.assertError, "check 'targetIdx < strLstSize(targetList)' failed".toList⟩

def queueFileAdd (option : BackupOption) (targetList : List Str) (build : QueueBuild)
    (file : ManifestFile) : Except Error QueueBuild :=
  if fileSkip option file then .ok build
  else
    match fileQueueIdx option targetList file with
    | .error e => .error e
    | .ok queueIdx =>
      .ok {
        queueList := build.queueList.modify queueIdx (· ++ [file])
        result := (build.result + file.size) % 2 ^ 64
        fileTotal := build.fileTotal + 1
        pgControlFound := build.pgControlFound || file.name = pgControlName }

def pgControlError : Error :=
  ⟨.fileMissingError, "pg_control must be present in all online backups\n".toList ++
    "HINT: is something wrong with the clock or filesystem timestamps?".toList⟩

def noFilesError : Error :=
  ⟨.fileMissingError, "no files have changed since the last backup - this seems unlikely".toList⟩

/-- The size to copy and the queues. -/
def backupProcessQueue (option : BackupOption) (manifest : Manifest) :
    Except Error (Nat × List (List ManifestFile)) :=
  let targetList := queueTargetList manifest
  match manifest.fileList.foldlM (queueFileAdd option targetList)
      { queueList := List.replicate (targetList.length + queueOffset option.backupStandby) [] } with
  | .error e => .error e
  | .ok build =>
    if build.pgControlFound = false ∧ option.online = true then .error pgControlError
    else if build.fileTotal = 0 then .error noFilesError
    else .ok (build.result, build.queueList.map queueSort)

/-! ## Serving the clients -/

structure BackupJobData where
  backupLabel : Str
  backupStandby : Bool
  cipherSubPass : Option Str
  compressType : CompressType
  compressLevel : Int
  delta : Bool
  lsnStart : Nat
  queueList : List (List ManifestFile)

/-- The parameters of `PROTOCOL_COMMAND_BACKUP_FILE`. -/
structure BackupFileParam where
  pgFile : Option Str
  pgFileIgnoreMissing : Bool
  pgFileSize : Nat
  pgFileCopyExactSize : Bool
  pgFileChecksum : Option Str
  pgFileChecksumPage : Bool
  pgFileChecksumPageLsnLimit : Nat
  repoFile : Str
  repoFileHasReference : Bool
  repoFileCompressType : CompressType
  repoFileCompressLevel : Int
  backupLabel : Str
  delta : Bool
  cipherType : CipherType
  cipherPass : Option Str

/-- The assertion that anything else is below `pg_tblspc` is about the caller. -/
def manifestPathPg (manifestPath : Str) : Option Str :=
  if strBeginsWith manifestPath (manifestTargetPgData ++ ['/']) then
    some (manifestPath.drop (manifestTargetPgData.length + 1))
  else if manifestPath ≠ manifestTargetPgData then some manifestPath
  else none

structure BackupJob where
  file : ManifestFile
  key : Str
  param : BackupFileParam

def backupJob (jobData : BackupJobData) (file : ManifestFile) : BackupJob where
  file := file
  key := file.name
  param := {
    pgFile := manifestPathPg file.name
    pgFileIgnoreMissing := file.name ≠ pgControlName
    pgFileSize := file.size
    pgFileCopyExactSize := !file.primary
    pgFileChecksum := if file.checksumSha1 = [] then none else some file.checksumSha1
    pgFileChecksumPage := file.checksumPage
    pgFileChecksumPageLsnLimit := jobData.lsnStart
    repoFile := file.name
    repoFileHasReference := file.reference.isSome
    repoFileCompressType := jobData.compressType
    repoFileCompressLevel := jobData.compressLevel
    backupLabel := jobData.backupLabel
    delta := jobData.delta
    cipherType := if jobData.cipherSubPass.isNone then .none else .aes256Cbc
    cipherPass := jobData.cipherSubPass }

def backupJobQueueNext (clientIdx : Nat) (queueIdx : Int) (queueTotal : Nat) : Int :=
  let next := queueIdx + if clientIdx % 2 ≠ 0 then -1 else 1
  if next < 0 then queueTotal - 1
  else if next = queueTotal then 0
  else next

/-- The first client of a backup from a standby has queue 0 for itself. -/
def primaryClient (jobData : BackupJobData) (clientIdx : Nat) : Bool :=
  jobData.backupStandby && clientIdx = 0

def clientQueueOffset (jobData : BackupJobData) (clientIdx : Nat) : Nat :=
  if jobData.backupStandby && decide (0 < clientIdx) then 1 else 0

/-- The loop of `backupJobCallback`, with fuel for one round each. `none` is a loop that
did not end or a queue that is not there. -/
def queueScan (jobData : BackupJobData) (clientIdx : Nat) (queueEnd : Int) :
    Nat → Int → Option (Option BackupJob × BackupJobData)
  | 0, _ => none
  | fuel + 1, queueIdx =>
    let listIdx := queueIdx.toNat + clientQueueOffset jobData clientIdx
    match jobData.queueList[listIdx]? with
    | none => none
    | some (file :: rest) =>
      some (some (backupJob jobData file),
        { jobData with queueList := jobData.queueList.set listIdx rest })
    | some [] =>
      let queueNext :=
        if primaryClient jobData clientIdx then queueIdx
        else backupJobQueueNext clientIdx queueIdx
          (jobData.queueList.length - clientQueueOffset jobData clientIdx)
      if queueNext ≠ queueEnd then queueScan jobData clientIdx queueEnd fuel queueNext
      else some (none, jobData)

/-- Where a client begins to scan. -/
def queueStart (jobData : BackupJobData) (clientIdx : Nat) : Nat :=
  if primaryClient jobData clientIdx then 0
  else clientIdx % (jobData.queueList.length - clientQueueOffset jobData clientIdx)

def backupJobCallback (fuel : Nat) (jobData : BackupJobData) (clientIdx : Nat) :
    Option (Option BackupJob × BackupJobData) :=
  queueScan jobData clientIdx (queueStart jobData clientIdx) fuel (queueStart jobData clientIdx)

/-- The clients ask for work one after the other. -/
def serve (fuel : Nat) : BackupJobData → List Nat →
    Option (List (Nat × Option BackupJob) × BackupJobData)
  | jobData, [] => some ([], jobData)
  | jobData, clientIdx :: requests =>
    match backupJobCallback fuel jobData clientIdx with
    | none => none
    | some (job, jobData) =>
      match serve fuel jobData requests with
      | none => none
      | some (handed, jobData) => some ((clientIdx, job) :: handed, jobData)

def Serves (jobData : BackupJobData) (clientIdx queueIdx : Nat) : Prop :=
  queueIdx < jobData.queueList.length ∧
    (jobData.backupStandby = true → (clientIdx = 0 ↔ queueIdx = 0))

/-! ## One request -/

section Scan
variable {jobData : BackupJobData} {clientIdx : Nat}

/-- What a request gives: the first file of a queue the client may serve, or nothing when
these are all empty. -/
def Found (jobData : BackupJobData) (clientIdx : Nat)
    (answer : Option BackupJob × BackupJobData) : Prop :=
  (∃ queueIdx file rest, Serves jobData clientIdx queueIdx ∧
    jobData.queueList[queueIdx]? = some (file :: rest) ∧
    answer = (some (backupJob jobData file),
      { jobData with queueList := jobData.queueList.set queueIdx rest })) ∨
  ((∀ queueIdx, Serves jobData clientIdx queueIdx → jobData.queueList[queueIdx]? = some []) ∧
    answer = (none, jobData))

/-- There is a queue for every client. -/
def Enough (jobData : BackupJobData) : Prop :=
  queueOffset jobData.backupStandby < jobData.queueList.length

def stride (clientIdx size : Nat) : Nat := if clientIdx % 2 ≠ 0 then size - 1 else 1

theorem coprime_stride {size : Nat} (pos : 0 < size) :
    Nat.Coprime size (stride clientIdx size) := by
  unfold stride
  split
  · exact (Nat.coprime_self_sub_right pos).mpr (Nat.coprime_one_right size)
  · exact Nat.coprime_one_right size

theorem backupJobQueueNext_eq {queueIdx size : Nat} (h : queueIdx < size) :
    backupJobQueueNext clientIdx queueIdx size =
      ((queueIdx + stride clientIdx size) % size : Nat) := by
  unfold backupJobQueueNext stride
  by_cases odd : clientIdx % 2 ≠ 0
  · simp only [if_pos odd]
    by_cases zero : queueIdx = 0
    · subst zero
      rw [if_pos (by omega), Nat.zero_add, Nat.mod_eq_of_lt (by omega)]
      omega
    · have wraps : (queueIdx + (size - 1)) % size = queueIdx - 1 := by
        have sum : queueIdx + (size - 1) = queueIdx - 1 + size := by omega
        rw [sum, Nat.add_mod_right, Nat.mod_eq_of_lt (by omega)]
      rw [if_neg (by omega), if_neg (by omega), wraps]
      omega
  · simp only [if_neg odd]
    by_cases last : queueIdx + 1 = size
    · rw [if_neg (by omega), if_pos (by omega), last, Nat.mod_self]
      rfl
    · rw [if_neg (by omega), if_neg (by omega), Nat.mod_eq_of_lt (by omega)]
      omega

/-- The queues a client walks around. -/
def ringSize (jobData : BackupJobData) (clientIdx : Nat) : Nat :=
  jobData.queueList.length - clientQueueOffset jobData clientIdx

variable {queueIdx : Nat} {queueList : List (List ManifestFile)} {option : BackupOption}
  {file : ManifestFile} {targetList : List Str}

theorem serves_iff (notPrimary : primaryClient jobData clientIdx = false) :
    Serves jobData clientIdx queueIdx ↔ ∃ p < ringSize jobData clientIdx,
      queueIdx = p + clientQueueOffset jobData clientIdx := by
  unfold Serves ringSize clientQueueOffset
  unfold primaryClient at notPrimary
  cases standby : jobData.backupStandby with
  | false =>
    simp only [Bool.false_and, Bool.false_eq_true, if_false, false_imp_iff, and_true]
    constructor
    · intro lt
      exact ⟨queueIdx, by omega, rfl⟩
    · rintro ⟨p, lt, rfl⟩
      omega
  | true =>
    simp only [standby, Bool.true_and, decide_eq_false_iff_not] at notPrimary
    have pos : 0 < clientIdx := by omega
    simp only [Bool.true_and, decide_eq_true pos, if_true, true_imp_iff]
    constructor
    · rintro ⟨lt, same⟩
      exact ⟨queueIdx - 1, by omega, by omega⟩
    · rintro ⟨p, lt, rfl⟩
      exact ⟨by omega, by omega⟩

theorem ringSize_pos (enough : Enough jobData) : 0 < ringSize jobData clientIdx := by
  unfold Enough queueOffset at enough
  unfold ringSize clientQueueOffset
  cases standby : jobData.backupStandby with
  | false => simp_all
  | true =>
    simp only [standby, if_true] at enough
    split <;> omega

/-- The place of a client's walk after `k` steps. -/
def queueAt (jobData : BackupJobData) (clientIdx k : Nat) : Nat :=
  RingScan.place (ringSize jobData clientIdx) (queueStart jobData clientIdx)
    (stride clientIdx (ringSize jobData clientIdx)) k

theorem queueStart_lt (enough : Enough jobData)
    (notPrimary : primaryClient jobData clientIdx = false) :
    queueStart jobData clientIdx < ringSize jobData clientIdx := by
  rw [queueStart, notPrimary]
  exact Nat.mod_lt _ (ringSize_pos enough)

/-- A step of the walk from an empty queue. -/
theorem queueNext_eq (enough : Enough jobData)
    (notPrimary : primaryClient jobData clientIdx = false) (k : Nat) :
    (if primaryClient jobData clientIdx = true then (queueAt jobData clientIdx k : Int)
      else backupJobQueueNext clientIdx (queueAt jobData clientIdx k)
        (jobData.queueList.length - clientQueueOffset jobData clientIdx)) =
      queueAt jobData clientIdx (k + 1) := by
  rw [notPrimary, if_neg (by decide)]
  have inside : queueAt jobData clientIdx k < ringSize jobData clientIdx :=
    RingScan.place_lt (ringSize_pos enough) k
  have next := @backupJobQueueNext_eq clientIdx _ _ inside
  rw [queueAt, RingScan.place_succ] at next
  exact next

/-- The scan of a client that walks, `k` queues after its start. -/
theorem queueScan_spec (enough : Enough jobData)
    (notPrimary : primaryClient jobData clientIdx = false) (left : Nat) :
    ∀ k fuel, k + left = ringSize jobData clientIdx → 0 < left → left ≤ fuel →
      (∀ j < k, jobData.queueList[queueAt jobData clientIdx j +
        clientQueueOffset jobData clientIdx]? = some []) →
      ∃ answer, queueScan jobData clientIdx (queueStart jobData clientIdx) fuel
        (queueAt jobData clientIdx k) = some answer ∧ Found jobData clientIdx answer := by
  have pos := @ringSize_pos jobData clientIdx enough
  have coprime := @coprime_stride clientIdx _ pos
  induction left with
  | zero =>
    intro k fuel _ absurdPos
    omega
  | succ left ih =>
    intro k fuel sum _ fuelEnough empty
    obtain ⟨fuel, rfl⟩ : ∃ f, fuel = f + 1 := ⟨fuel - 1, by omega⟩
    have inRing : queueAt jobData clientIdx k < ringSize jobData clientIdx :=
      RingScan.place_lt pos k
    have inList : queueAt jobData clientIdx k + clientQueueOffset jobData clientIdx <
        jobData.queueList.length := by
      unfold ringSize at inRing
      omega
    rw [queueScan]
    simp only [Int.toNat_natCast, List.getElem?_eq_getElem inList]
    cases queue : jobData.queueList[queueAt jobData clientIdx k +
        clientQueueOffset jobData clientIdx] with
    | cons file rest =>
      refine ⟨_, rfl, .inl ⟨_, file, rest, (serves_iff notPrimary).mpr ⟨_, inRing, rfl⟩, ?_, rfl⟩⟩
      rw [List.getElem?_eq_getElem inList, queue]
    | nil =>
      have empty' : ∀ j < k + 1, jobData.queueList[queueAt jobData clientIdx j +
          clientQueueOffset jobData clientIdx]? = some [] := by
        intro j lt
        by_cases last : j = k
        · rw [last, List.getElem?_eq_getElem inList, queue]
        · exact empty j (by omega)
      simp only [queueNext_eq enough notPrimary]
      by_cases back : (queueAt jobData clientIdx (k + 1) : Int) = queueStart jobData clientIdx
      · -- the walk is back, so it has been everywhere
        have around : k + 1 = ringSize jobData clientIdx := by
          by_contra short
          exact RingScan.place_ne_start coprime (queueStart_lt enough notPrimary)
            (by omega : 0 < k + 1) (by omega) (Int.ofNat.inj back)
        refine ⟨_, by rw [if_neg (by simpa using back)], .inr ⟨?_, rfl⟩⟩
        intro queueIdx serves
        obtain ⟨p, lt, rfl⟩ := (serves_iff notPrimary).mp serves
        obtain ⟨j, visited, rfl⟩ :=
          @RingScan.exists_place _ (queueStart jobData clientIdx) _ coprime p lt
        exact empty' j (by omega)
      · have more : 0 < left := by
          by_contra none
          apply back
          have around : k + 1 = ringSize jobData clientIdx := by omega
          rw [around, queueAt, RingScan.place_size (queueStart_lt enough notPrimary)]
        rw [if_pos back]
        exact ih (k + 1) fuel (by omega) more (by omega) empty'

/-- A request ends and gives what there is. -/
theorem backupJobCallback_spec (enough : Enough jobData) {fuel : Nat}
    (fuelEnough : jobData.queueList.length ≤ fuel) (clientIdx : Nat) :
    ∃ answer, backupJobCallback fuel jobData clientIdx = some answer ∧
      Found jobData clientIdx answer := by
  unfold Enough at enough
  have listPos : 0 < jobData.queueList.length := by omega
  cases primary : primaryClient jobData clientIdx with
  | false =>
    have start : queueAt jobData clientIdx 0 = queueStart jobData clientIdx :=
      RingScan.place_zero (queueStart_lt enough primary)
    have spec := queueScan_spec enough primary (ringSize jobData clientIdx) 0 fuel (by omega)
      (ringSize_pos enough) (by unfold ringSize; omega) (by omega)
    rwa [start] at spec
  | true =>
    -- queue 0 only
    obtain ⟨fuel, rfl⟩ : ∃ f, fuel = f + 1 := ⟨fuel - 1, by omega⟩
    have only := primary
    simp only [primaryClient, Bool.and_eq_true, decide_eq_true_eq] at only
    obtain ⟨standby, rfl⟩ := only
    have serves : Serves jobData 0 0 := ⟨listPos, by simp⟩
    have noOffset : clientQueueOffset jobData 0 = 0 := by simp [clientQueueOffset]
    rw [backupJobCallback, queueStart, primary, if_pos rfl, queueScan]
    simp only [noOffset, primary, Int.toNat_natCast, Nat.add_zero, if_true, ne_eq,
      not_true_eq_false, if_false, List.getElem?_eq_getElem listPos]
    cases queue : jobData.queueList[0] with
    | cons file rest =>
      refine ⟨_, rfl, .inl ⟨0, file, rest, serves, ?_, rfl⟩⟩
      rw [List.getElem?_eq_getElem listPos, queue]
    | nil =>
      refine ⟨_, rfl, .inr ⟨?_, rfl⟩⟩
      rintro queueIdx ⟨-, same⟩
      obtain rfl : queueIdx = 0 := (same standby).mp rfl
      rw [List.getElem?_eq_getElem listPos, queue]

/-! ## Any order of requests -/

def Sorted (backupStandby : Bool) (queueList : List (List ManifestFile)) : Prop :=
  backupStandby = true → ∀ queueIdx queue, queueList[queueIdx]? = some queue →
    ∀ file ∈ queue, file.primary = true ↔ queueIdx = 0

theorem flatten_set_perm {rest : List ManifestFile}
    (at_ : queueList[queueIdx]? = some (file :: rest)) :
    (file :: (queueList.set queueIdx rest).flatten).Perm queueList.flatten := by
  induction queueList generalizing queueIdx with
  | nil => exact absurd at_ (by simp)
  | cons queue others ih =>
    cases queueIdx with
    | zero =>
      obtain rfl : queue = file :: rest := by simpa using at_
      exact List.Perm.refl _
    | succ queueIdx =>
      rw [List.set_cons_succ, List.flatten_cons, List.flatten_cons]
      exact List.perm_middle.symm.trans ((ih (by simpa using at_)).append_left queue)

theorem sorted_set {backupStandby : Bool} {rest : List ManifestFile}
    (sorted : Sorted backupStandby queueList) (at_ : queueList[queueIdx]? = some (file :: rest)) :
    Sorted backupStandby (queueList.set queueIdx rest) := by
  intro standby other queue atOther item mem
  rw [List.getElem?_set] at atOther
  split at atOther
  · rename_i same
    subst same
    split at atOther
    · cases atOther
      exact sorted standby _ _ at_ item (List.mem_cons_of_mem _ mem)
    · exact absurd atOther (by simp)
  · exact sorted standby _ _ atOther item mem

def handedFiles (handed : List (Nat × Option BackupJob)) : List ManifestFile :=
  (handed.filterMap Prod.snd).map BackupJob.file

/-- With a standby the first client has the primary's files and no other client has one. -/
def ServedRight (backupStandby : Bool) (clientIdx : Nat) (job : Option BackupJob) : Prop :=
  ∀ given, job = some given → backupStandby = true → (clientIdx = 0 ↔ given.file.primary = true)

theorem Found.step {answer : Option BackupJob × BackupJobData}
    (found : Found jobData clientIdx answer)
    (sorted : Sorted jobData.backupStandby jobData.queueList) :
    answer.2.backupStandby = jobData.backupStandby ∧
    answer.2.queueList.length = jobData.queueList.length ∧
    Sorted jobData.backupStandby answer.2.queueList ∧
    ServedRight jobData.backupStandby clientIdx answer.1 ∧
    (answer.1.toList.map BackupJob.file ++ answer.2.queueList.flatten).Perm
      jobData.queueList.flatten := by
  rcases found with ⟨queueIdx, file, rest, serves, at_, rfl⟩ | ⟨-, rfl⟩
  · refine ⟨rfl, List.length_set, sorted_set sorted at_, ?_, flatten_set_perm at_⟩
    intro given same standby
    cases same
    have primary := sorted standby queueIdx _ at_ file List.mem_cons_self
    exact (serves.2 standby).trans primary.symm
  · refine ⟨rfl, rfl, sorted, ?_, List.Perm.refl _⟩
    intro given none
    exact absurd none (by simp)

theorem serve_spec {fuel : Nat} : ∀ (requests : List Nat) (jobData : BackupJobData),
    Enough jobData → Sorted jobData.backupStandby jobData.queueList →
    jobData.queueList.length ≤ fuel →
    ∃ handed final, serve fuel jobData requests = some (handed, final) ∧
      final.backupStandby = jobData.backupStandby ∧
      final.queueList.length = jobData.queueList.length ∧
      Sorted jobData.backupStandby final.queueList ∧
      (∀ entry ∈ handed, ServedRight jobData.backupStandby entry.1 entry.2) ∧
      (handedFiles handed ++ final.queueList.flatten).Perm jobData.queueList.flatten := by
  intro requests
  induction requests with
  | nil =>
    intro jobData _ sorted _
    exact ⟨[], jobData, rfl, rfl, rfl, sorted, by simp, List.Perm.refl _⟩
  | cons clientIdx requests ih =>
    intro jobData enough sorted fuelEnough
    obtain ⟨⟨job, middle⟩, call, found⟩ := backupJobCallback_spec enough fuelEnough clientIdx
    obtain ⟨standby, length, sortedMiddle, right, perm⟩ := found.step sorted
    simp only at standby length sortedMiddle right perm
    have enoughMiddle : Enough middle := by
      unfold Enough
      rw [standby, length]
      exact enough
    obtain ⟨handed, final, calls, standby', length', sortedFinal, rights, perm'⟩ := ih middle
      enoughMiddle (standby ▸ sortedMiddle) (length ▸ fuelEnough)
    refine ⟨(clientIdx, job) :: handed, final, ?_, standby'.trans standby, length'.trans length,
      standby ▸ sortedFinal, ?_, ?_⟩
    · rw [serve, call]
      simp only [calls]
    · intro entry mem
      rcases List.mem_cons.mp mem with rfl | mem
      · exact right
      · exact standby ▸ rights entry mem
    · have files : handedFiles ((clientIdx, job) :: handed) =
          job.toList.map BackupJob.file ++ handedFiles handed := by
        cases job <;> rfl
      rw [files, List.append_assoc]
      exact (perm'.append_left _).trans perm

/-! ## The queues that are built -/

def queuedFiles (option : BackupOption) (manifest : Manifest) : List ManifestFile :=
  manifest.fileList.filter fun file => !fileSkip option file

theorem flatten_modify_perm (h : queueIdx < queueList.length) (file : ManifestFile) :
    (queueList.modify queueIdx (· ++ [file])).flatten.Perm (queueList.flatten ++ [file]) := by
  induction queueList generalizing queueIdx with
  | nil => exact absurd h (by simp)
  | cons queue others ih =>
    cases queueIdx with
    | zero =>
      simp only [List.modify_zero_cons, List.flatten_cons, List.append_assoc]
      exact List.perm_append_comm.append_left queue
    | succ queueIdx =>
      simp only [List.modify_succ_cons, List.flatten_cons, List.append_assoc]
      exact (ih (by simpa using h)).append_left queue

theorem fileQueueIdx_spec (h : fileQueueIdx option targetList file = .ok queueIdx) :
    queueIdx < targetList.length + queueOffset option.backupStandby ∨
      option.backupStandby = true ∧ queueIdx = 0 := by
  unfold fileQueueIdx at h
  split at h
  · rename_i standby
    cases h
    exact .inr ⟨(Bool.and_eq_true _ _ ▸ standby).1, rfl⟩
  · split at h
    · rename_i targetIdx found
      cases h
      obtain ⟨lt, -⟩ := List.findIdx?_eq_some_iff_getElem.mp found
      exact .inl (by omega)
    · exact absurd h (by simp)

theorem fileQueueIdx_primary (h : fileQueueIdx option targetList file = .ok queueIdx)
    (standby : option.backupStandby = true) : file.primary = true ↔ queueIdx = 0 := by
  unfold fileQueueIdx at h
  cases primary : file.primary with
  | true =>
    rw [standby, primary, if_pos (by decide)] at h
    cases h
    simp
  | false =>
    rw [primary, if_neg (by simp)] at h
    split at h
    · cases h
      simp [queueOffset, standby]
    · exact absurd h (by simp)

/-- The state of the loop that fills the queues. -/
structure Filled (option : BackupOption) (total : Nat) (files : List ManifestFile)
    (queueList : List (List ManifestFile)) : Prop where
  length : queueList.length = total
  perm : queueList.flatten.Perm files
  sorted : Sorted option.backupStandby queueList

theorem Filled.add {total : Nat} {files : List ManifestFile}
    (filled : Filled option total files queueList) (inside : queueIdx < total)
    (primary : option.backupStandby = true → (file.primary = true ↔ queueIdx = 0)) :
    Filled option total (files ++ [file]) (queueList.modify queueIdx (· ++ [file])) where
  length := by rw [List.length_modify, filled.length]
  perm := by
    have inList : queueIdx < queueList.length := filled.length.symm ▸ inside
    exact (flatten_modify_perm inList file).trans (filled.perm.append_right _)
  sorted := by
    intro standby other queue atOther item mem
    rw [List.getElem?_modify] at atOther
    obtain ⟨old, atOld, rfl⟩ := Option.map_eq_some_iff.mp atOther
    split at mem
    · rename_i same
      subst same
      rcases List.mem_append.mp mem with mem | mem
      · exact filled.sorted standby _ _ atOld item mem
      · obtain rfl : item = file := by simpa using mem
        exact primary standby
    · exact filled.sorted standby _ _ atOld item mem

theorem queueFileAdd_filled (some : 0 < targetList.length) :
    ∀ (fileList : List ManifestFile) (build next : QueueBuild) (files : List ManifestFile),
      Filled option (targetList.length + queueOffset option.backupStandby) files build.queueList →
      fileList.foldlM (queueFileAdd option targetList) build = .ok next →
      Filled option (targetList.length + queueOffset option.backupStandby)
        (files ++ fileList.filter (fun file => !fileSkip option file)) next.queueList := by
  intro fileList
  induction fileList with
  | nil =>
    intro build next files filled run
    cases run
    simpa using filled
  | cons file rest ih =>
    intro build next files filled run
    rw [List.foldlM_cons] at run
    unfold queueFileAdd at run
    split at run
    · rename_i skip
      have kept := ih build next files filled run
      simpa [skip] using kept
    · rename_i noSkip
      split at run
      · exact absurd run (by intro h; cases h)
      · rename_i queueIdx found
        have inside : queueIdx < targetList.length + queueOffset option.backupStandby := by
          rcases fileQueueIdx_spec found with lt | ⟨-, zero⟩
          · exact lt
          · omega
        have added := filled.add inside (fileQueueIdx_primary found)
        have kept := ih _ next (files ++ [file]) added run
        simpa [noSkip] using kept

theorem filled_replicate (option : BackupOption) (total : Nat) :
    Filled option total [] (List.replicate total []) where
  length := List.length_replicate
  perm := by simp
  sorted := by
    intro _ queueIdx queue at_ file mem
    rw [List.getElem?_replicate] at at_
    split at at_
    · cases at_
      exact absurd mem List.not_mem_nil
    · exact absurd at_ (by simp)

theorem Filled.map_sort {total : Nat} {files : List ManifestFile}
    (filled : Filled option total files queueList) :
    Filled option total files (queueList.map queueSort) where
  length := by rw [List.length_map, filled.length]
  perm := by
    refine List.Perm.trans ?_ filled.perm
    have each : ∀ queues : List (List ManifestFile),
        (queues.map queueSort).flatten.Perm queues.flatten := by
      intro queues
      induction queues with
      | nil => exact List.Perm.refl _
      | cons queue others ih =>
        exact (List.mergeSort_perm queue _).append ih
    exact each queueList
  sorted := by
    intro standby queueIdx queue at_ file mem
    rw [List.getElem?_map] at at_
    obtain ⟨old, atOld, rfl⟩ := Option.map_eq_some_iff.mp at_
    exact filled.sorted standby _ _ atOld file (List.mem_mergeSort.mp mem)

theorem backupProcessQueue_spec {manifest : Manifest} {sizeTotal : Nat}
    (built : backupProcessQueue option manifest = .ok (sizeTotal, queueList)) :
    Filled option ((queueTargetList manifest).length + queueOffset option.backupStandby)
      (queuedFiles option manifest) queueList := by
  simp only [backupProcessQueue] at built
  split at built
  · exact absurd built (by simp)
  · rename_i build run
    split at built
    · exact absurd built (by simp)
    · split at built
      · exact absurd built (by simp)
      · cases built
        have filled := queueFileAdd_filled (by simp [queueTargetList]) manifest.fileList _ _ []
          (filled_replicate option _) run
        exact filled.map_sort

/-! ## Every file once -/

theorem exists_serves {clientTotal : Nat} (clients : 0 < clientTotal)
    (standbyClients : jobData.backupStandby = true → 1 < clientTotal)
    (inside : queueIdx < jobData.queueList.length) :
    ∃ clientIdx < clientTotal, Serves jobData clientIdx queueIdx := by
  by_cases first : queueIdx = 0
  · exact ⟨0, clients, inside, fun _ => by omega⟩
  · cases standby : jobData.backupStandby with
    | false => exact ⟨0, clients, inside, fun h => absurd (standby.symm.trans h) (by decide)⟩
    | true => exact ⟨1, standbyClients standby, inside, fun _ => by omega⟩

theorem Found.none_iff {answer : Option BackupJob × BackupJobData}
    (found : Found jobData clientIdx answer) :
    answer.1 = none ↔
      ∀ queueIdx, Serves jobData clientIdx queueIdx → jobData.queueList[queueIdx]? = some [] := by
  rcases found with ⟨queueIdx, file, rest, serves, at_, rfl⟩ | ⟨empty, rfl⟩
  · constructor
    · intro none
      exact absurd none (by simp)
    · intro empty
      exact absurd (at_.symm.trans (empty queueIdx serves)) (by simp)
  · exact ⟨fun _ => empty, fun _ => rfl⟩

theorem backupJobCallback_exactly_once {option : BackupOption} {manifest : Manifest}
    {sizeTotal fuel : Nat} {queueList : List (List ManifestFile)}
    (built : backupProcessQueue option manifest = .ok (sizeTotal, queueList))
    (queues : jobData.queueList = queueList)
    (standby : jobData.backupStandby = option.backupStandby)
    (fuelEnough : queueList.length ≤ fuel) (requests : List Nat) :
    queueList.flatten.Perm (queuedFiles option manifest) ∧
    ∃ handed final, serve fuel jobData requests = some (handed, final) ∧
      (handedFiles handed ++ final.queueList.flatten).Perm queueList.flatten ∧
      (∀ entry ∈ handed, ServedRight option.backupStandby entry.1 entry.2) ∧
      (∀ clientIdx, ∃ job next, backupJobCallback fuel final clientIdx = some (job, next) ∧
        (job = none ↔ ∀ queueIdx, Serves final clientIdx queueIdx →
          final.queueList[queueIdx]? = some [])) ∧
      ∀ clientTotal, 0 < clientTotal → (option.backupStandby = true → 1 < clientTotal) →
        (∀ clientIdx < clientTotal, ∃ next,
          backupJobCallback fuel final clientIdx = some (none, next)) →
        (handedFiles handed).Perm queueList.flatten := by
  subst queues
  have filled := backupProcessQueue_spec built
  have enough : Enough jobData := by
    unfold Enough
    rw [standby, filled.length, queueTargetList, List.length_cons]
    omega
  obtain ⟨handed, final, calls, standby', length, sorted, rights, perm⟩ :=
    serve_spec requests jobData enough (standby ▸ filled.sorted) fuelEnough
  have enoughFinal : Enough final := by
    unfold Enough
    rw [standby', length]
    exact enough
  have request := @backupJobCallback_spec final enoughFinal fuel (length ▸ fuelEnough)
  refine ⟨filled.perm, handed, final, calls, perm, standby ▸ rights, ?_, ?_⟩
  · intro clientIdx
    obtain ⟨⟨job, next⟩, call, found⟩ := request clientIdx
    exact ⟨job, next, call, found.none_iff⟩
  · intro clientTotal clients standbyClients isOver
    have empty : final.queueList.flatten = [] := by
      apply List.flatten_eq_nil_iff.mpr
      intro queue mem
      obtain ⟨queueIdx, inside, rfl⟩ := List.getElem_of_mem mem
      obtain ⟨clientIdx, lt, serves⟩ := exists_serves clients
        (fun h => standbyClients (by rw [← standby, ← standby', h])) inside
      obtain ⟨answer, call, found⟩ := request clientIdx
      obtain ⟨next, none⟩ := isOver clientIdx lt
      have same := Option.some.inj (call.symm.trans none)
      have at_ := found.none_iff.mp (by rw [same]) queueIdx serves
      exact Option.some.inj ((List.getElem?_eq_getElem inside).symm.trans at_)
    rwa [empty, List.append_nil] at perm

def standbyManifest : Manifest :=
  { fileList := [{ name := pgControlName, primary := true, size := 8192 },
      { name := "pg_data/base/1/1".toList, size := 16384 }] }

def standbyJobData : BackupJobData where
  backupLabel := []
  backupStandby := true
  cipherSubPass := none
  compressType := .none
  compressLevel := 0
  delta := false
  lsnStart := 0
  queueList := standbyManifest.fileList.map fun file => [file]

theorem backupJobCallback_exactly_once_standby :
    backupProcessQueue ⟨true, false, true⟩ standbyManifest =
      .ok (24576, standbyJobData.queueList) ∧
    ∃ handed final, serve 2 standbyJobData [1, 0, 1, 0] = some (handed, final) ∧
      (handedFiles handed ++ final.queueList.flatten).Perm standbyJobData.queueList.flatten := by
  have built : backupProcessQueue ⟨true, false, true⟩ standbyManifest =
      .ok (24576, standbyJobData.queueList) := by
    have filled : standbyManifest.fileList.foldlM
        (queueFileAdd ⟨true, false, true⟩ (queueTargetList standbyManifest))
        { queueList := [[], []] } =
        .ok { queueList := standbyJobData.queueList, result := 24576, fileTotal := 2,
              pgControlFound := true } := rfl
    have same : List.replicate ((queueTargetList standbyManifest).length + queueOffset true) [] =
        ([[], []] : List (List ManifestFile)) := rfl
    rw [backupProcessQueue, same, filled]
    simp [queueSort, standbyJobData, standbyManifest]
  obtain ⟨-, handed, final, calls, perm, -⟩ := backupJobCallback_exactly_once
    built rfl rfl (Nat.le_refl 2) [1, 0, 1, 0]
  exact ⟨built, handed, final, calls, perm⟩

/-! ## The callback of the executor -/

/-- `backupJobCallback` as the executor calls it, on queues that are there. -/
def executorCallback : Parallel.Callback BackupFileParam { jobData // Enough jobData } :=
  fun jobData clientIdx =>
    match call : backupJobCallback jobData.1.queueList.length jobData.1 clientIdx with
    | none => (none, jobData)
    | some (job, next) =>
      (job.map fun given => (given.key, given.param), ⟨next, by
        obtain ⟨answer, call', found⟩ := backupJobCallback_spec jobData.2 (Nat.le_refl _) clientIdx
        cases call.symm.trans call'
        rcases found with ⟨queueIdx, file, rest, -, -, same⟩ | ⟨-, same⟩
        · cases same
          simpa [Enough] using jobData.2
        · cases same
          exact jobData.2⟩)

def Empty (jobData : BackupJobData) (clientIdx : Nat) : Prop :=
  ∀ queueIdx, Serves jobData clientIdx queueIdx → jobData.queueList[queueIdx]? = some []

theorem executorCallback_spec (jobData : { jobData // Enough jobData }) (clientIdx : Nat) :
    ((executorCallback jobData clientIdx).1 = none ↔ Empty jobData.1 clientIdx) ∧
      ∀ other, Empty jobData.1 other → Empty (executorCallback jobData clientIdx).2.1 other := by
  obtain ⟨⟨job, next⟩, call, found⟩ :=
    backupJobCallback_spec jobData.2 (Nat.le_refl _) clientIdx
  have job_eq : (executorCallback jobData clientIdx).1 =
      job.map fun given => (given.key, given.param) := by
    unfold executorCallback
    split
    · rename_i none
      exact absurd (call.symm.trans none) (by simp)
    · rename_i some
      cases call.symm.trans some
      rfl
  have next_eq : (executorCallback jobData clientIdx).2.1 = next := by
    unfold executorCallback
    split
    · rename_i none
      exact absurd (call.symm.trans none) (by simp)
    · rename_i some
      cases call.symm.trans some
      rfl
  constructor
  · rw [job_eq, Option.map_eq_none_iff]
    exact found.none_iff
  · intro other empty
    rw [next_eq]
    rcases found with ⟨queueIdx, file, rest, serves, at_, same⟩ | ⟨-, same⟩
    · cases same
      intro third servesThird
      have servesOld : Serves jobData.1 other third := by
        simpa [Serves] using servesThird
      have atThird := empty third servesOld
      have differ : queueIdx ≠ third := by
        rintro rfl
        exact absurd (at_.symm.trans atThird) (by simp)
      simp only [List.getElem?_set_ne differ]
      exact atThird
    · cases same
      exact empty

/-- The executor may free a client at the first request that gives no job. -/
theorem keepsNone_executorCallback : Parallel.KeepsNone executorCallback := by
  intro jobData clientIdx none later reach
  have empty : Empty (executorCallback jobData clientIdx).2.1 clientIdx :=
    (executorCallback_spec jobData clientIdx).2 clientIdx
      ((executorCallback_spec jobData clientIdx).1.mp none)
  refine (executorCallback_spec later clientIdx).1.mpr ?_
  induction reach with
  | refl => exact empty
  | tail _ step ih =>
    obtain ⟨other, rfl⟩ := step
    exact (executorCallback_spec _ other).2 clientIdx ih

end Scan

end BackupQueue
