import Backrest.VerifyFile
import Backrest.VerifyRange

/-!
# Archive ids while verify runs

The archive ids on disk are looked up in the history, and the results of their WAL files are
looked up by archive id. Both go by a comparator that looks at the number behind the dash only.
Workers ask for jobs and jobs end in any order.
-/

namespace VerifyArchive

open Text BackupInfo Verify VerifyRange
open Repository (storageRepoArchive)

section Lookup

/-- `atoi`, which has no result for a number that an `int` does not hold. -/
def atoi (s : Str) : Option Nat :=
  let n := cvtDigits (s.takeWhile Char.isDigit)
  if n < 2 ^ 31 then some n else none

def archiveIdNumber (archiveId : Str) : Option Nat := (strLstNewSplit '-' archiveId)[1]?.bind atoi

def archiveIdComparator (item1 item2 : Str) : Option Int := do
  let int1 ← archiveIdNumber item1
  let int2 ← archiveIdNumber item2
  return int1 - int2

/-- `strLstExists` in a list sorted by the comparator: the binary search finds an entry that
compares equal if there is one. Sorting and searching convert all entries. -/
def existsSorted (list : List Str) (archiveId : Str) : Option Bool :=
  if list.all fun item => (archiveIdComparator archiveId item).isSome then
    some (list.any fun item => archiveIdComparator archiveId item = some 0)
  else none

/-- `lstFindIdx` in a list that is not sorted: the first entry that compares equal. -/
def findIdx (archiveId : Str) : List Str → Option Nat
  | [] => none
  | item :: list =>
    match archiveIdComparator archiveId item with
    | none => none
    | some compare => if compare = 0 then some 0 else (findIdx archiveId list).map (· + 1)

end Lookup

section History

/-- What is reported: the newest backup that is not complete, the archive ids that are missing,
the log and the errors so far. -/
structure CheckResult where
  currentBackup : Option Str
  missingFromHistory : List Str
  log : Option Error
  jobErrorTotal : Nat

def missingError (missingFromHistory : List Str) : Error :=
  ⟨.archiveMismatchError, "archiveIds '".toList ++ strLstJoin missingFromHistory ", ".toList ++
    "' are not in the archive.info history list".toList⟩

def archiveIdHistoryList (pgHistory : InfoPg) : List Str := pgHistory.history.map infoPgArchiveId

def missingAdd (historyList : List Str) (missing : List Str) (archiveId : Str) : Option (List Str) :=
  (existsSorted historyList archiveId).map fun known =>
    if known then missing else missing ++ [archiveId]

def verifySetBackupCheckArchive (backupList : List Str) (backupInfo : InfoBackup)
    (archiveIdList : List Str) (pgHistory : InfoPg) (jobErrorTotal : Nat) : Option CheckResult := do
  let missing ← archiveIdList.foldlM (missingAdd (archiveIdHistoryList pgHistory)) []
  return {
    currentBackup := currentBackup backupInfo backupList
    missingFromHistory := missing
    log := if missing = [] then none else some (missingError missing)
    jobErrorTotal := if missing = [] then jobErrorTotal else jobErrorTotal + 1 }

end History

section Jobs

structure ArchiveResult extends VerifyArchiveResult where
  archiveId : Str
  totalWalFile : Nat := 0
  totalValidWal : Nat := 0

/-- The part of the job data that WAL files use. -/
structure WalJobData where
  archiveIdList : List Str
  archiveIdResultList : List ArchiveResult := []
  walPathList : List Str := []
  walFileList : List Str := []
  jobErrorTotal : Nat := 0

/-- The archive of a repository: its archive ids, in an order that the comparator leaves open
where they compare equal, with their directories, files and WAL headers. -/
structure Archive where
  archiveIdList : List Str
  distinct : archiveIdList.Nodup
  plain : ∀ archiveId ∈ archiveIdList, '/' ∉ archiveId
  walPathList : Str → List Str
  walFileList : Str → Str → List Str
  walInfo : Str → Str → Str → Except Error PgWal

variable (archive : Archive)

def walFilePath (archiveId walPath fileName : Str) : Str :=
  storageRepoArchive ++ '/' :: (archiveId ++ '/' :: (walPath ++ '/' :: fileName))

def walJob (archiveId walPath fileName : Str) (size : Nat) : Job :=
  ⟨archiveId ++ '/' :: walFilePath archiveId walPath fileName,
    ⟨walFilePath archiveId walPath fileName, strSubN fileName 25 40, size⟩⟩

def startArchive (archiveId : Str) (jobData : WalJobData) : WalJobData :=
  if (jobData.archiveIdResultList.getLast?.map (·.archiveId)) = some archiveId then jobData
  else { jobData with
    archiveIdResultList := jobData.archiveIdResultList ++
      [{ archiveId := archiveId, pgWalInfo := ⟨0, 0⟩ }]
    walPathList := archive.walPathList archiveId }

/-- The version and the segment size are read from the first WAL file of an archive id. -/
def walInfoOf (archiveId walPath fileName : Str) (result : ArchiveResult) : Except Error PgWal :=
  if result.pgWalInfo.size = 0 then archive.walInfo archiveId walPath fileName
  else .ok result.pgWalInfo

/-- List the files of a directory, once the files before are done. -/
def listFiles (archiveId walPath : Str) (jobData : WalJobData) : Except Error WalJobData :=
  if jobData.walFileList ≠ [] then .ok jobData
  else
    match archive.walFileList archiveId walPath, jobData.archiveIdResultList.getLast? with
    | [], _ => .ok jobData
    | _ :: _, none => .error (lstGetError 0 0)
    | fileName :: files, some result => do
      let walInfo ← walInfoOf archive archiveId walPath fileName result
      let (kept, ranges, jobErrorTotal) ← verifyCreateArchiveIdRange
        { pgWalInfo := walInfo, walRangeList := result.walRangeList } (fileName :: files)
        jobData.jobErrorTotal
      return { jobData with
        walFileList := kept
        jobErrorTotal := jobErrorTotal
        archiveIdResultList := jobData.archiveIdResultList.dropLast ++ [{ result with
          toVerifyArchiveResult := ranges
          totalWalFile := result.totalWalFile + (fileName :: files).length }] }

def lastSize (jobData : WalJobData) : Nat :=
  (jobData.archiveIdResultList.getLast?.map (·.pgWalInfo.size)).getD 0

/-- The directories of an archive id, until there is a file to check. -/
def verifyPaths (archiveId : Str) : List Str → WalJobData → Except Error (Option Job × WalJobData)
  | [], jobData => .ok (none, { jobData with walPathList := [] })
  | walPath :: rest, jobData => do
    let listed ← listFiles archive archiveId walPath jobData
    match listed.walFileList with
    | fileName :: files =>
      -- If this is the last file to process for this timeline, then remove the path
      return (some (walJob archiveId walPath fileName (lastSize listed)), { listed with
        walFileList := files
        walPathList := if files = [] then rest else walPath :: rest })
    | [] => verifyPaths archiveId rest listed

/-- The archive ids, until there is a file to check. -/
def verifyIds : List Str → WalJobData → Except Error (Option Job × WalJobData)
  | [], jobData => .ok (none, { jobData with archiveIdList := [] })
  | archiveId :: rest, jobData => do
    let started := startArchive archive archiveId jobData
    if started.walPathList = [] then verifyIds rest started
    else
      let (job, next) ← verifyPaths archive archiveId started.walPathList started
      match job with
      | none => verifyIds rest next
      | some job => return (some job, { next with
          archiveIdList := if next.walPathList = [] then rest else archiveId :: rest })

def verifyArchive (jobData : WalJobData) : Except Error (Option Job × WalJobData) :=
  verifyIds archive jobData.archiveIdList jobData

/-- What a result changes in the entry of an archive id. -/
def recordResult (filePathName : Str) (outcome : Except Error VerifyResult) (result : ArchiveResult) :
    ArchiveResult :=
  let walSegment := strSubN ((strLstNewSplit '/' filePathName).getLastD []) 0 24
  match outcome with
  | .ok .verifyOk => { result with totalValidWal := result.totalValidWal + 1 }
  | .ok reason => { result with
      walRangeList := verifyAddInvalidWalFile reason filePathName walSegment result.walRangeList }
  | .error _ => { result with
      walRangeList :=
        verifyAddInvalidWalFile .verifyOtherError filePathName walSegment result.walRangeList }

/-- The entry that a result with this key goes to. -/
def resultIdx (jobData : WalJobData) (key : Str) : Option Nat :=
  findIdx (keySplit key).1 (jobData.archiveIdResultList.map (·.archiveId))

/-- The result of a WAL file. There is no step on when no entry is found. -/
def walResult (jobData : WalJobData) (key : Str) (outcome : Except Error VerifyResult) :
    Option WalJobData :=
  let (_, fileType, filePathName) := keySplit key
  (resultIdx jobData key).map fun index => { jobData with
    archiveIdResultList :=
      jobData.archiveIdResultList.modify index (recordResult filePathName outcome)
    jobErrorTotal := jobData.jobErrorTotal + resultErrors fileType outcome }

structure RunState where
  jobData : WalJobData
  jobList : List Job := []

inductive Step (outcome : Outcome) : RunState → RunState → Prop
  | dispatch {s : RunState} {job : Option Job} {next : WalJobData} :
      verifyArchive archive s.jobData = .ok (job, next) →
      Step outcome s { jobData := next, jobList := s.jobList ++ job.toList }
  | collect {s : RunState} {job : Job} {next : WalJobData} : job ∈ s.jobList →
      walResult s.jobData job.key (outcome job.check) = some next →
      Step outcome s { jobData := next, jobList := s.jobList.erase job }

def runStart : RunState where
  jobData := { archiveIdList := archive.archiveIdList }

inductive Reachable (outcome : Outcome) : RunState → Prop
  | start : Reachable outcome (runStart archive)
  | step {s next : RunState} : Reachable outcome s → Step archive outcome s next →
      Reachable outcome next

end Jobs

section Claimed

/-- Exactly the archive ids that are no entry of the history are reported, as one error. -/
def Exact (backupList : List Str) (backupInfo : InfoBackup) (archiveIdList : List Str)
    (pgHistory : InfoPg) (jobErrorTotal : Nat) : Prop :=
  ∃ result, verifySetBackupCheckArchive backupList backupInfo archiveIdList pgHistory
      jobErrorTotal = some result ∧
    result.missingFromHistory =
      archiveIdList.filter (fun archiveId => decide (archiveId ∉ archiveIdHistoryList pgHistory)) ∧
    result.jobErrorTotal =
      jobErrorTotal + if result.missingFromHistory = [] then 0 else 1

def Comparable (archiveIdList historyList : List Str) : Prop :=
  archiveIdList = [] ∨ historyList = [] ∨
    ((∀ item ∈ archiveIdList ++ historyList, (archiveIdNumber item).isSome) ∧
      ∀ archiveId ∈ archiveIdList,
        (∃ known ∈ historyList, archiveIdNumber known = archiveIdNumber archiveId) →
          archiveId ∈ historyList)

def Belongs (job : Job) (archiveId : Str) : Prop :=
  '/' ∉ archiveId ∧ ∃ walPath fileName, job.check.filePathName = walFilePath archiveId walPath fileName

/-- The result of the job will go to the entry of the archive id. -/
def Attributed (s : RunState) (job : Job) (archiveId : Str) : Prop :=
  ∃ index result, resultIdx s.jobData job.key = some index ∧
    s.jobData.archiveIdResultList[index]? = some result ∧ result.archiveId = archiveId

/-- The archive ids have numbers that fit and differ. -/
def Apart (archiveId other : Str) : Prop :=
  ∃ m n, archiveIdNumber archiveId = some m ∧ archiveIdNumber other = some n ∧ m ≠ n

/-- No archive id before this one compares equal to it. -/
def Clear (archive : Archive) (archiveId : Str) : Prop :=
  ∃ front rest, archive.archiveIdList = front ++ archiveId :: rest ∧
    (archiveIdNumber archiveId).isSome ∧ ∀ other ∈ front, Apart archiveId other

end Claimed

section Compare
variable {archiveId item : Str} {list : List Str}

theorem archiveIdComparator_eq {m n : Nat} (first : archiveIdNumber archiveId = some m)
    (second : archiveIdNumber item = some n) :
    archiveIdComparator archiveId item = some ((m : Int) - n) := by
  rw [archiveIdComparator, first, second]
  rfl

theorem archiveIdComparator_none
    (undefined : archiveIdNumber archiveId = none ∨ archiveIdNumber item = none) :
    archiveIdComparator archiveId item = none := by
  rw [archiveIdComparator]
  rcases undefined with first | second
  · rw [first]
    rfl
  · rw [second]
    cases archiveIdNumber archiveId with
    | none => rfl
    | some m => rfl

theorem apart_iff : Apart archiveId item ↔
    ∃ compare, archiveIdComparator archiveId item = some compare ∧ compare ≠ 0 := by
  constructor
  · rintro ⟨m, n, first, second, differ⟩
    exact ⟨_, archiveIdComparator_eq first second, by omega⟩
  · rintro ⟨compare, compared, differ⟩
    cases first : archiveIdNumber archiveId with
    | none =>
      rw [archiveIdComparator_none (Or.inl first)] at compared
      cases compared
    | some m =>
      cases second : archiveIdNumber item with
      | none =>
        rw [archiveIdComparator_none (Or.inr second)] at compared
        cases compared
      | some n =>
        rw [archiveIdComparator_eq first second] at compared
        cases compared
        exact ⟨m, n, first, second, by omega⟩

theorem comparator_zero_iff : archiveIdComparator archiveId item = some 0 ↔
    ∃ n, archiveIdNumber archiveId = some n ∧ archiveIdNumber item = some n := by
  constructor
  · intro zero
    cases first : archiveIdNumber archiveId with
    | none =>
      rw [archiveIdComparator_none (Or.inl first)] at zero
      cases zero
    | some m =>
      cases second : archiveIdNumber item with
      | none =>
        rw [archiveIdComparator_none (Or.inr second)] at zero
        cases zero
      | some n =>
        rw [archiveIdComparator_eq first second, Option.some.injEq] at zero
        exact ⟨m, rfl, by rw [Option.some.injEq]; omega⟩
  · rintro ⟨n, first, second⟩
    rw [archiveIdComparator_eq first second, Int.sub_self]

theorem comparator_isSome_iff : (archiveIdComparator archiveId item).isSome ↔
    (archiveIdNumber archiveId).isSome ∧ (archiveIdNumber item).isSome := by
  constructor
  · intro compared
    constructor
    · by_contra undefined
      rw [archiveIdComparator_none (Or.inl (by simpa using undefined))] at compared
      cases compared
    · by_contra undefined
      rw [archiveIdComparator_none (Or.inr (by simpa using undefined))] at compared
      cases compared
  · rintro ⟨first, second⟩
    obtain ⟨m, first⟩ := Option.isSome_iff_exists.mp first
    obtain ⟨n, second⟩ := Option.isSome_iff_exists.mp second
    rw [archiveIdComparator_eq first second]
    rfl

/-- The search by number has an answer when there is nothing to compare or all numbers fit. -/
theorem existsSorted_isSome_iff : (existsSorted list archiveId).isSome ↔
    list = [] ∨ ∀ item ∈ archiveId :: list, (archiveIdNumber item).isSome := by
  have compared : list.all (fun item => (archiveIdComparator archiveId item).isSome) = true ↔
      ∀ item ∈ list, (archiveIdNumber archiveId).isSome ∧ (archiveIdNumber item).isSome := by
    rw [List.all_eq_true]
    exact forall₂_congr fun item _ => comparator_isSome_iff
  rw [existsSorted, List.forall_mem_cons]
  split
  next all =>
    refine ⟨fun _ => ?_, fun _ => rfl⟩
    have all := compared.mp all
    cases list with
    | nil => exact Or.inl rfl
    | cons item list =>
      exact Or.inr ⟨(all item List.mem_cons_self).1, fun other mem => (all other mem).2⟩
  next notAll =>
    constructor
    · intro none
      cases none
    · rintro (rfl | ⟨first, others⟩)
      · exact absurd rfl notAll
      · exact absurd (compared.mpr fun item mem => ⟨first, others item mem⟩) notAll

theorem existsSorted_eq_true_iff (defined : (existsSorted list archiveId).isSome) :
    existsSorted list archiveId = some true ↔
      ∃ known ∈ list, ∃ n, archiveIdNumber archiveId = some n ∧ archiveIdNumber known = some n := by
  rw [existsSorted] at defined ⊢
  split at defined
  next all =>
    rw [if_pos all, Option.some.injEq, List.any_eq_true]
    constructor
    · rintro ⟨known, mem, zero⟩
      exact ⟨known, mem, comparator_zero_iff.mp (of_decide_eq_true zero)⟩
    · rintro ⟨known, mem, same⟩
      exact ⟨known, mem, decide_eq_true (comparator_zero_iff.mpr same)⟩
  next => cases defined

end Compare

section Missing
variable {archiveIdList historyList missing : List Str}

/-- The archive ids that the search does not find are collected in order. -/
theorem foldlM_missingAdd {result : List Str} :
    archiveIdList.foldlM (missingAdd historyList) missing = some result ↔
      (∀ archiveId ∈ archiveIdList, (existsSorted historyList archiveId).isSome) ∧
        result = missing ++ archiveIdList.filter fun archiveId =>
          decide (existsSorted historyList archiveId ≠ some true) := by
  induction archiveIdList generalizing missing with
  | nil =>
    change some missing = some result ↔ _
    rw [Option.some.injEq, List.filter_nil, List.append_nil]
    exact ⟨fun same => ⟨by simp, same.symm⟩, fun same => same.2.symm⟩
  | cons archiveId archiveIdList ih =>
    rw [List.foldlM_cons, List.forall_mem_cons, missingAdd]
    cases found : existsSorted historyList archiveId with
    | none => simp
    | some known =>
      cases known with
      | true =>
        change List.foldlM (missingAdd historyList) missing archiveIdList = some result ↔ _
        rw [ih]
        simp [found]
      | false =>
        change List.foldlM (missingAdd historyList) (missing ++ [archiveId]) archiveIdList =
          some result ↔ _
        rw [ih]
        simp [found]

theorem exact_iff (backupList : List Str) (backupInfo : InfoBackup) (archiveIdList : List Str)
    (pgHistory : InfoPg) (jobErrorTotal : Nat) :
    Exact backupList backupInfo archiveIdList pgHistory jobErrorTotal ↔
      Comparable archiveIdList (archiveIdHistoryList pgHistory) := by
  have unfolded : Exact backupList backupInfo archiveIdList pgHistory jobErrorTotal ↔
      archiveIdList.foldlM (missingAdd (archiveIdHistoryList pgHistory)) [] =
        some (archiveIdList.filter fun archiveId =>
          decide (archiveId ∉ archiveIdHistoryList pgHistory)) := by
    constructor
    · rintro ⟨result, run, missing, -⟩
      rw [verifySetBackupCheckArchive] at run
      cases fold : archiveIdList.foldlM (missingAdd (archiveIdHistoryList pgHistory)) [] with
      | none =>
        rw [fold] at run
        cases run
      | some found =>
        rw [fold] at run
        cases run
        exact congrArg some missing
    · intro fold
      refine ⟨_, by rw [verifySetBackupCheckArchive, fold]; rfl, rfl, ?_⟩
      dsimp only
      split
      · rfl
      · rfl
  rw [unfolded, foldlM_missingAdd, List.nil_append]
  generalize archiveIdHistoryList pgHistory = historyList
  constructor
  · rintro ⟨defined, same⟩
    by_cases none : archiveIdList = []
    · exact Or.inl none
    · by_cases empty : historyList = []
      · exact Or.inr (Or.inl empty)
      · have numbers : ∀ archiveId ∈ archiveIdList, ∀ item ∈ archiveId :: historyList,
            (archiveIdNumber item).isSome := fun archiveId mem =>
          (existsSorted_isSome_iff.mp (defined archiveId mem)).resolve_left empty
        refine Or.inr (Or.inr ⟨?_, ?_⟩)
        · intro item mem
          rcases List.mem_append.mp mem with first | second
          · exact numbers item first item List.mem_cons_self
          · obtain ⟨archiveId, member⟩ := List.exists_mem_of_ne_nil _ none
            exact numbers archiveId member item (List.mem_cons_of_mem _ second)
        · rintro archiveId mem ⟨known, member, number⟩
          obtain ⟨n, found⟩ := Option.isSome_iff_exists.mp
            (numbers archiveId mem archiveId List.mem_cons_self)
          have equal := (existsSorted_eq_true_iff (defined archiveId mem)).mpr
            ⟨known, member, n, found, number.trans found⟩
          by_contra missing
          have listed : archiveId ∈ archiveIdList.filter
              fun archiveId => decide (archiveId ∉ historyList) :=
            List.mem_filter.mpr ⟨mem, decide_eq_true missing⟩
          rw [same] at listed
          exact of_decide_eq_true (List.mem_filter.mp listed).2 equal
  · intro comparable
    have defined : ∀ archiveId ∈ archiveIdList, (existsSorted historyList archiveId).isSome := by
      intro archiveId mem
      apply existsSorted_isSome_iff.mpr
      rcases comparable with none | empty | ⟨numbers, -⟩
      · rw [none] at mem
        cases mem
      · exact Or.inl empty
      · refine Or.inr fun item member => numbers item ?_
        rcases List.mem_cons.mp member with rfl | known
        · exact List.mem_append_left _ mem
        · exact List.mem_append_right _ known
    refine ⟨defined, List.filter_congr ?_⟩
    intro archiveId mem
    rw [decide_eq_decide, not_iff_not, existsSorted_eq_true_iff (defined archiveId mem)]
    constructor
    · intro known
      have some := (existsSorted_isSome_iff.mp (defined archiveId mem)).resolve_left
        (List.ne_nil_of_mem known)
      obtain ⟨n, found⟩ := Option.isSome_iff_exists.mp (some archiveId List.mem_cons_self)
      exact ⟨archiveId, known, n, found, found⟩
    · rintro ⟨known, member, n, found, number⟩
      rcases comparable with none | empty | ⟨-, entry⟩
      · rw [none] at mem
        cases mem
      · rw [empty] at member
        cases member
      · exact entry archiveId mem ⟨known, member, number.trans found.symm⟩

end Missing

section Find
variable {archiveId : Str} {front rest : List Str}

/-- The search by number finds an archive id when nothing before it compares equal. -/
theorem findIdx_iff (fresh : archiveId ∉ front) :
    (∃ index, findIdx archiveId (front ++ archiveId :: rest) = some index ∧
      (front ++ archiveId :: rest)[index]? = some archiveId) ↔
    (archiveIdNumber archiveId).isSome ∧ ∀ other ∈ front, Apart archiveId other := by
  induction front with
  | nil =>
    rw [List.nil_append, findIdx]
    constructor
    · rintro ⟨index, found, -⟩
      refine ⟨?_, by simp⟩
      cases number : archiveIdNumber archiveId with
      | none =>
        rw [archiveIdComparator_none (Or.inl number)] at found
        cases found
      | some n => rfl
    · rintro ⟨defined, -⟩
      obtain ⟨n, number⟩ := Option.isSome_iff_exists.mp defined
      refine ⟨0, ?_, rfl⟩
      rw [archiveIdComparator_eq number number, Int.sub_self]
      rfl
  | cons item front ih =>
    rw [List.mem_cons, not_or] at fresh
    rw [List.cons_append, findIdx, List.forall_mem_cons]
    cases compared : archiveIdComparator archiveId item with
    | none =>
      constructor
      · rintro ⟨index, found, -⟩
        cases found
      · rintro ⟨-, apart, -⟩
        obtain ⟨compare, other, -⟩ := apart_iff.mp apart
        rw [compared] at other
        cases other
    | some compare =>
      by_cases zero : compare = 0
      · subst zero
        constructor
        · rintro ⟨index, found, place⟩
          cases found
          exact absurd (Option.some.inj place).symm fresh.1
        · rintro ⟨-, apart, -⟩
          obtain ⟨compare, other, differ⟩ := apart_iff.mp apart
          rw [compared] at other
          cases other
          exact absurd rfl differ
      · have apart : Apart archiveId item := apart_iff.mpr ⟨compare, compared, zero⟩
        dsimp only
        rw [if_neg zero, and_left_comm, and_iff_right apart, ← ih fresh.2]
        constructor
        · rintro ⟨index, found, place⟩
          obtain ⟨before, inner, rfl⟩ := Option.map_eq_some_iff.mp found
          exact ⟨before, inner, place⟩
        · rintro ⟨index, found, place⟩
          exact ⟨index + 1, by rw [found]; rfl, place⟩

end Find

section Run
variable {archive : Archive} {outcome : Outcome} {jobData next : WalJobData}
  {archiveId walPath : Str} {rest : List Str}

def resultIds (jobData : WalJobData) : List Str := jobData.archiveIdResultList.map (·.archiveId)

/-- The results are those of the first archive ids, and what is left starts behind them or with the
last of them. -/
def Progress (archive : Archive) (left done : List Str) : Prop :=
  ∃ later, archive.archiveIdList = done ++ later ∧
    (left = later ∨ ∃ archiveId, done.getLast? = some archiveId ∧ left = archiveId :: later)

theorem startArchive_spec (progress : Progress archive (archiveId :: rest) (resultIds jobData)) :
    let started := startArchive archive archiveId jobData
    archive.archiveIdList = resultIds started ++ rest ∧
      (resultIds started).getLast? = some archiveId ∧ resultIds jobData <+: resultIds started := by
  have last : (jobData.archiveIdResultList.getLast?.map (·.archiveId)) =
      (resultIds jobData).getLast? := List.getLast?_map.symm
  dsimp only
  rw [startArchive, last]
  obtain ⟨later, whole, left⟩ := progress
  by_cases same : (resultIds jobData).getLast? = some archiveId
  · rw [if_pos same]
    refine ⟨?_, same, List.prefix_rfl⟩
    rcases left with left | ⟨other, last', left⟩
    · -- The archive id would be on disk twice.
      exfalso
      have distinct := archive.distinct
      rw [whole, ← left] at distinct
      exact List.disjoint_of_nodup_append distinct (List.mem_of_getLast? same) List.mem_cons_self
    · cases left
      exact whole
  · rw [if_neg same]
    have added : resultIds { jobData with
        archiveIdResultList := jobData.archiveIdResultList ++
          [{ archiveId := archiveId, pgWalInfo := ⟨0, 0⟩ }]
        walPathList := archive.walPathList archiveId } = resultIds jobData ++ [archiveId] := by
      rw [resultIds, List.map_append]
      rfl
    rw [added]
    refine ⟨?_, by rw [List.getLast?_concat], List.prefix_append _ _⟩
    rcases left with left | ⟨other, last', left⟩
    · rw [whole, ← left, List.append_assoc]
      rfl
    · cases left
      exact absurd last' same

theorem listFiles_ids (listed : listFiles archive archiveId walPath jobData = .ok next) :
    resultIds next = resultIds jobData := by
  rw [listFiles] at listed
  split at listed
  next =>
    cases listed
    rfl
  next =>
    split at listed
    next =>
      cases listed
      rfl
    next => cases listed
    next fileName files result files' last =>
      obtain ⟨init, whole⟩ := List.getLast?_eq_some_iff.mp last
      cases info : walInfoOf archive archiveId walPath fileName result with
      | error e =>
        rw [info] at listed
        cases listed
      | ok walInfo =>
        cases range : verifyCreateArchiveIdRange
            { pgWalInfo := walInfo, walRangeList := result.walRangeList } (fileName :: files)
            jobData.jobErrorTotal with
        | error e =>
          simp only [info, range, bind, Except.bind] at listed
          cases listed
        | ok ranges =>
          simp only [info, range, bind, Except.bind] at listed
          cases listed
          rw [resultIds, resultIds, whole, List.dropLast_concat, List.map_append, List.map_append]
          rfl

def JobOf (archiveId : Str) (job : Job) : Prop :=
  ∃ walPath fileName size, job = walJob archiveId walPath fileName size

theorem verifyPaths_spec {paths : List Str} {job : Option Job}
    (run : verifyPaths archive archiveId paths jobData = .ok (job, next)) :
    resultIds next = resultIds jobData ∧ ∀ found ∈ job, JobOf archiveId found := by
  induction paths generalizing jobData with
  | nil =>
    cases run
    exact ⟨rfl, by simp⟩
  | cons walPath paths ih =>
    rw [verifyPaths] at run
    cases list : listFiles archive archiveId walPath jobData with
    | error e =>
      rw [list] at run
      cases run
    | ok listed =>
      rw [list] at run
      have ids := listFiles_ids list
      change (match listed.walFileList with
        | fileName :: files => _
        | [] => _) = _ at run
      split at run
      next fileName files shape =>
        cases run
        refine ⟨ids, ?_⟩
        intro found mem
        cases mem
        exact ⟨walPath, fileName, _, rfl⟩
      next =>
        obtain ⟨same, jobs⟩ := ih run
        exact ⟨same.trans ids, jobs⟩

theorem verifyIds_spec {left : List Str} {job : Option Job}
    (progress : Progress archive left (resultIds jobData))
    (run : verifyIds archive left jobData = .ok (job, next)) :
    Progress archive next.archiveIdList (resultIds next) ∧ resultIds jobData <+: resultIds next ∧
      ∀ found ∈ job, ∃ archiveId ∈ resultIds next, JobOf archiveId found := by
  induction left generalizing jobData with
  | nil =>
    cases run
    exact ⟨progress, List.prefix_rfl, by simp⟩
  | cons archiveId rest ih =>
    obtain ⟨whole, last, grows⟩ := startArchive_spec progress
    have behind : Progress archive rest (resultIds (startArchive archive archiveId jobData)) :=
      ⟨rest, whole, Or.inl rfl⟩
    rw [verifyIds] at run
    dsimp only at run
    split at run
    · obtain ⟨progress', grows', jobs⟩ := ih behind run
      exact ⟨progress', grows.trans grows', jobs⟩
    · cases paths : verifyPaths archive archiveId (startArchive archive archiveId jobData).walPathList
          (startArchive archive archiveId jobData) with
      | error e =>
        rw [paths] at run
        cases run
      | ok result =>
        obtain ⟨found, after⟩ := result
        obtain ⟨ids, jobs⟩ := verifyPaths_spec paths
        rw [paths] at run
        cases found with
        | none =>
          change verifyIds archive rest after = _ at run
          obtain ⟨progress', grows', jobs'⟩ := ih (ids ▸ behind) run
          rw [ids] at grows'
          exact ⟨progress', grows.trans grows', jobs'⟩
        | some job' =>
          cases run
          refine ⟨?_, ?_, ?_⟩
          · change Progress archive (if after.walPathList = [] then rest else archiveId :: rest)
              (resultIds after)
            rw [ids]
            split
            · exact behind
            · exact ⟨rest, whole, Or.inr ⟨archiveId, last, rfl⟩⟩
          · change _ <+: resultIds after
            rw [ids]
            exact grows
          · intro found mem
            refine ⟨archiveId, ?_, jobs found mem⟩
            change archiveId ∈ resultIds after
            rw [ids]
            exact List.mem_of_getLast? last

theorem recordResult_archiveId (filePathName : Str) (found : Except Error VerifyResult)
    (result : ArchiveResult) : (recordResult filePathName found result).archiveId = result.archiveId := by
  unfold recordResult
  dsimp only
  split
  · rfl
  · rfl
  · rfl

theorem walResult_spec {key : Str} {found : Except Error VerifyResult}
    (collected : walResult jobData key found = some next) :
    next.archiveIdList = jobData.archiveIdList ∧ resultIds next = resultIds jobData := by
  rw [walResult] at collected
  obtain ⟨index, -, rfl⟩ := Option.map_eq_some_iff.mp collected
  refine ⟨rfl, ?_⟩
  change (jobData.archiveIdResultList.modify index _).map _ = jobData.archiveIdResultList.map _
  apply List.ext_getElem?
  intro i
  rw [List.getElem?_map, List.getElem?_map, List.getElem?_modify]
  split
  · cases jobData.archiveIdResultList[i]? with
    | none => rfl
    | some result => exact congrArg some (recordResult_archiveId _ _ result)
  · cases jobData.archiveIdResultList[i]? with
    | none => rfl
    | some result => rfl

/-- What holds in every state of a run. -/
structure Inv (archive : Archive) (s : RunState) : Prop where
  progress : Progress archive s.jobData.archiveIdList (resultIds s.jobData)
  jobs : ∀ job ∈ s.jobList, ∃ archiveId ∈ resultIds s.jobData, JobOf archiveId job

theorem inv_start (archive : Archive) : Inv archive (runStart archive) where
  progress := ⟨archive.archiveIdList, rfl, Or.inl rfl⟩
  jobs := by
    intro job mem
    cases mem

theorem inv_step {s t : RunState} (inv : Inv archive s) (step : Step archive outcome s t) :
    Inv archive t := by
  cases step with
  | dispatch run =>
    obtain ⟨progress, grows, found⟩ := verifyIds_spec inv.progress run
    refine ⟨progress, ?_⟩
    intro job mem
    rcases List.mem_append.mp mem with old | fresh
    · obtain ⟨archiveId, listed, of⟩ := inv.jobs job old
      exact ⟨archiveId, grows.subset listed, of⟩
    · exact found job (by simpa using fresh)
  | collect out collected =>
    obtain ⟨left, ids⟩ := walResult_spec collected
    refine ⟨?_, ?_⟩
    · dsimp only
      rw [left, ids]
      exact inv.progress
    · intro job mem
      dsimp only
      rw [ids]
      exact inv.jobs job (List.mem_of_mem_erase mem)

theorem inv_reachable {s : RunState} (reached : Reachable archive outcome s) : Inv archive s := by
  induction reached with
  | start => exact inv_start archive
  | step _ step ih => exact inv_step ih step

theorem resultIdx_walJob {fileName : Str} {size : Nat} (plain : '/' ∉ archiveId) :
    resultIdx jobData (walJob archiveId walPath fileName size).key =
      findIdx archiveId (resultIds jobData) := by
  have key : (walJob archiveId walPath fileName size).key = archiveId ++ '/' ::
      (storageRepoArchive ++ '/' :: (archiveId ++ '/' :: (walPath ++ '/' :: fileName))) := rfl
  rw [resultIdx, key, VerifyRun.keySplit_key plain (by decide)]
  rfl

/-- The result of a job that is out goes to its archive id exactly when nothing before it on disk
compares equal. -/
theorem attributed_iff {s : RunState} {job : Job} (reached : Reachable archive outcome s)
    (out : job ∈ s.jobList) (belongs : Belongs job archiveId) :
    Attributed s job archiveId ↔ Clear archive archiveId := by
  have inv := inv_reachable reached
  obtain ⟨later, whole, -⟩ := inv.progress
  obtain ⟨other, listed, path, file, size, rfl⟩ := inv.jobs job out
  obtain ⟨plain, walPath, fileName, same⟩ := belongs
  have plainOther : '/' ∉ other := by
    apply archive.plain
    rw [whole]
    exact List.mem_append_left _ listed
  obtain rfl : other = archiveId := by
    have tails := List.append_cancel_left same
    exact (append_delimiter_inj plainOther plain (List.cons.inj tails).2).1
  obtain ⟨front, behind, split⟩ := List.append_of_mem listed
  have distinct := archive.distinct
  have shape : archive.archiveIdList = front ++ other :: (behind ++ later) := by
    rw [whole, split, List.append_assoc]
    rfl
  rw [shape] at distinct
  have fresh : other ∉ front := AntiMerge.not_mem_front distinct
  have found : Attributed s (walJob other path file size) other ↔
      ∃ index, findIdx other (front ++ other :: behind) = some index ∧
        (front ++ other :: behind)[index]? = some other := by
    rw [← split]
    constructor
    · rintro ⟨index, result, idx, place, id⟩
      refine ⟨index, (resultIdx_walJob plain).symm.trans idx, ?_⟩
      rw [resultIds, List.getElem?_map, place, ← id]
      rfl
    · rintro ⟨index, idx, place⟩
      rw [resultIds, List.getElem?_map] at place
      obtain ⟨result, place, id⟩ := Option.map_eq_some_iff.mp place
      exact ⟨index, result, (resultIdx_walJob plain).trans idx, place, id⟩
  rw [found, findIdx_iff fresh]
  constructor
  · rintro ⟨defined, apart⟩
    exact ⟨front, behind ++ later, shape, defined, apart⟩
  · rintro ⟨front', rest', shape', defined, apart⟩
    obtain ⟨rfl, -⟩ := AntiMerge.split_unique distinct (shape'.symm.trans shape)
    exact ⟨defined, apart⟩

/-- The missing archive ids are the ones reported exactly when equal numbers mean equal entries, and
a result goes to the archive id of its path exactly when nothing before it has its number. -/
theorem verify_archiveId_iff (backupList : List Str) (backupInfo : InfoBackup)
    (archiveIdList : List Str) (pgHistory : InfoPg) (jobErrorTotal : Nat) (archive : Archive)
    (outcome : Outcome) (s : RunState) (job : Job) (archiveId : Str) :
    (Exact backupList backupInfo archiveIdList pgHistory jobErrorTotal ↔
      Comparable archiveIdList (archiveIdHistoryList pgHistory)) ∧
    (Reachable archive outcome s → job ∈ s.jobList → Belongs job archiveId →
      (Attributed s job archiveId ↔ Clear archive archiveId)) :=
  ⟨exact_iff backupList backupInfo archiveIdList pgHistory jobErrorTotal,
    fun reached out belongs => attributed_iff reached out belongs⟩

end Run

section Instance

/-- A cluster was upgraded and the stanza was created again: both archive ids have the number 1. -/
def recreated : Archive where
  archiveIdList := ["9.4-1".toList, "10-1".toList]
  distinct := by decide
  plain := by decide
  walPathList := fun _ => ["0000000100000000".toList]
  walFileList := fun _ _ =>
    ["000000010000000000000001-0123456789012345678901234567890123456789".toList]
  walInfo := fun archiveId _ _ => .ok ⟨if archiveId = "9.4-1".toList then 90400 else 100000, 1024⟩

def allOk : Outcome := fun _ => .ok .verifyOk

def recreatedJob (archiveId : Str) : Job :=
  walJob archiveId "0000000100000000".toList
    "000000010000000000000001-0123456789012345678901234567890123456789".toList 1024

/-- The state after a number of workers asked for a job. -/
def dispatchRun (archive : Archive) : Nat → RunState → Option RunState
  | 0, s => some s
  | count + 1, s =>
    match verifyArchive archive s.jobData with
    | .ok (job, next) => dispatchRun archive count ⟨next, s.jobList ++ job.toList⟩
    | .error _ => none

theorem dispatchRun_reachable {archive : Archive} {outcome : Outcome} {count : Nat} {s t : RunState}
    (reached : Reachable archive outcome s) (run : dispatchRun archive count s = some t) :
    Reachable archive outcome t := by
  induction count generalizing s with
  | zero =>
    cases run
    exact reached
  | succ count ih =>
    rw [dispatchRun] at run
    split at run
    next job next asked => exact ih (.step reached (.dispatch asked)) run
    next => cases run

/-- Both archive ids have their job out. -/
theorem recreated_run : ∃ s, Reachable recreated allOk s ∧
    s.jobList = [recreatedJob "9.4-1".toList, recreatedJob "10-1".toList] ∧
    resultIds s.jobData = ["9.4-1".toList, "10-1".toList] := by
  have run : (dispatchRun recreated 2 (runStart recreated)).map
      (fun s => (s.jobList, resultIds s.jobData)) =
      some ([recreatedJob "9.4-1".toList, recreatedJob "10-1".toList],
        ["9.4-1".toList, "10-1".toList]) := by decide +kernel
  obtain ⟨s, run, found⟩ := Option.map_eq_some_iff.mp run
  obtain ⟨jobs, ids⟩ := Prod.mk.inj found
  exact ⟨s, dispatchRun_reachable .start run, jobs, ids⟩

theorem recreatedJob_belongs {archiveId : Str} (plain : '/' ∉ archiveId) :
    Belongs (recreatedJob archiveId) archiveId :=
  ⟨plain, _, _, rfl⟩

/-- Nothing is listed before the first archive id. -/
theorem recreated_attributed : ∃ s, Reachable recreated allOk s ∧
    recreatedJob "9.4-1".toList ∈ s.jobList ∧
    Attributed s (recreatedJob "9.4-1".toList) "9.4-1".toList := by
  obtain ⟨s, reached, jobs, -⟩ := recreated_run
  have out : recreatedJob "9.4-1".toList ∈ s.jobList := by
    rw [jobs]
    exact List.mem_cons_self
  refine ⟨s, reached, out, ?_⟩
  exact ((verify_archiveId_iff [] ⟨⟨[], 0⟩, []⟩ [] { history := [] } 0 recreated allOk s _ _).2
    reached out (recreatedJob_belongs (by decide))).mpr
      ⟨[], ["10-1".toList], rfl, by decide +kernel, by simp⟩

def oldHistory : InfoPg where
  history := [{ id := 1, systemId := 1, catalogVersion := 201409291, version := 90400 }]

/-- The history is only of the old cluster: the new archive id is not reported, and the result of
its file goes to the old archive id. -/
theorem recreated_mixed :
    ¬ Exact [] ⟨⟨[], 0⟩, []⟩ recreated.archiveIdList oldHistory 0 ∧
    ∃ s job, Reachable recreated allOk s ∧ job ∈ s.jobList ∧ Belongs job "10-1".toList ∧
      ¬ Attributed s job "10-1".toList := by
  constructor
  · rintro ⟨result, run, missing, -⟩
    have none : (verifySetBackupCheckArchive [] ⟨⟨[], 0⟩, []⟩ recreated.archiveIdList
        oldHistory 0).map (·.missingFromHistory) =
          some [] := by decide +kernel
    rw [run] at none
    have none : result.missingFromHistory = [] := Option.some.inj none
    rw [missing] at none
    exact absurd none (by decide +kernel)
  · obtain ⟨s, reached, jobs, ids⟩ := recreated_run
    refine ⟨s, recreatedJob "10-1".toList, reached, ?_, recreatedJob_belongs (by decide), ?_⟩
    · rw [jobs]
      exact List.mem_cons_of_mem _ List.mem_cons_self
    · rintro ⟨index, result, found, place, id⟩
      have first : resultIdx s.jobData (recreatedJob "10-1".toList).key = some 0 := by
        rw [recreatedJob, resultIdx_walJob (by decide), ids]
        decide +kernel
      rw [first] at found
      cases found
      have shape : (resultIds s.jobData)[0]? = some "10-1".toList := by
        rw [resultIds, List.getElem?_map, place, ← id]
        rfl
      rw [ids] at shape
      exact absurd shape (by decide)

end Instance

end VerifyArchive
