import Backrest.ArchivePushFile

/-!
# Checking the repositories before a push

`archivePushCheck` loads the archive information of every repository and keeps the
repositories that fit. The version and system identifier that they are compared with come
from `pg_control`, or from the repository checked first. They are kept in the result and
are zero until something sets them.
-/

namespace ArchivePushCheck

open Text BackupCommon BackupInfo Repository
open ArchivePushFile (ArchivePushFileRepoData)

structure PgControl where
  version : Nat
  systemId : Nat

/-- The repositories as the check sees them. -/
structure Env where
  repoTotal : Nat
  groupIdxToKey : Nat → Nat
  pgControlFromFile : Except Error PgControl
  storageRepoIdx : Nat → Except Error Storage
  repoCipherType : Nat → CipherType
  infoArchiveCipherPass : InfoArchive → Option Str

structure ArchivePushCheckResult where
  pgVersion : Nat := 0
  pgSystemId : Nat := 0
  repoList : List ArchivePushFileRepoData := []
  errorList : List Str := []

section Code

variable (env : Env) (pgPathSet : Bool)

def repoName (repoIdx : Nat) : Str := "repo".toList ++ fmtUInt (env.groupIdxToKey repoIdx)

def mismatchError (result : ArchivePushCheckResult) (repoIdx : Nat) (archiveInfo : InfoPgData) :
    Error :=
  ⟨.archiveMismatchError,
    (if pgPathSet then "PostgreSQL".toList else repoName env 0 ++ " stanza".toList) ++
      " version ".toList ++ pgVersionToStr result.pgVersion ++ ", system-id ".toList ++
      fmtUInt result.pgSystemId ++ " do not match ".toList ++ repoName env repoIdx ++
      " stanza version ".toList ++ pgVersionToStr archiveInfo.version ++ ", system-id ".toList ++
      fmtUInt archiveInfo.systemId ++
      "\nHINT: are you archiving to the correct stanza?".toList⟩

def repoLoad (repoIdx : Nat) : Except Error (InfoArchive × InfoPgData) := do
  let storage ← env.storageRepoIdx repoIdx
  let info ← infoArchiveLoadFile storage
  let archiveInfo ← infoPgDataCurrent info.infoPg
  .ok (info, archiveInfo)

def repoData (repoIdx : Nat) (info : InfoArchive) (archiveInfo : InfoPgData) :
    ArchivePushFileRepoData where
  repoIdx := repoIdx
  archiveId := infoPgArchiveId archiveInfo
  cipherType := env.repoCipherType repoIdx
  cipherPass := env.infoArchiveCipherPass info

def repoCheck (result : ArchivePushCheckResult) (repoIdx : Nat) :
    Except Error ArchivePushCheckResult := do
  let (info, archiveInfo) ← repoLoad env repoIdx
  if (pgPathSet = true ∨ repoIdx > 0) ∧
      (result.pgVersion ≠ archiveInfo.version ∨ result.pgSystemId ≠ archiveInfo.systemId) then
    .error (mismatchError env pgPathSet result repoIdx archiveInfo)
  else
    .ok { result with
      pgVersion := archiveInfo.version
      pgSystemId := archiveInfo.systemId
      repoList := result.repoList ++ [repoData env repoIdx info archiveInfo] }

def errorText (repoIdx : Nat) (e : Error) : Str :=
  repoName env repoIdx ++ ": [".toList ++ errorTypeName e.type ++ "] ".toList ++ e.message

def repoStep (result : ArchivePushCheckResult) (repoIdx : Nat) : ArchivePushCheckResult :=
  match repoCheck env pgPathSet result repoIdx with
  | .ok result => result
  | .error e => { result with errorList := result.errorList ++ [errorText env repoIdx e] }

/-- What the reference values are before the first repository. -/
def resultInit : Except Error ArchivePushCheckResult :=
  if pgPathSet then do
    let pgControl ← env.pgControlFromFile
    .ok { pgVersion := pgControl.version, pgSystemId := pgControl.systemId }
  else .ok {}

def archivePushCheck : Except Error ArchivePushCheckResult := do
  let init ← resultInit env pgPathSet
  let result := (List.range env.repoTotal).foldl (repoStep env pgPathSet) init
  if result.repoList.isEmpty then
    .error ⟨.repoInvalidError, "unable to find a valid repository:\n".toList ++
      strLstJoin result.errorList ['\n']⟩
  else .ok result

end Code

/-! ## What the loop keeps -/

section Loop

variable {env : Env} {pgPathSet : Bool}

def stored (env : Env) (repoIdx : Nat) : Option (Nat × Nat) :=
  match repoLoad env repoIdx with
  | .ok (_, archiveInfo) => some (archiveInfo.version, archiveInfo.systemId)
  | .error _ => none

/-- The entry of a repository in the result when its values are the given ones. -/
def keptData (env : Env) (reference : Nat × Nat) (repoIdx : Nat) :
    Option ArchivePushFileRepoData :=
  match repoLoad env repoIdx with
  | .ok (info, archiveInfo) =>
    if (archiveInfo.version, archiveInfo.systemId) = reference then
      some (repoData env repoIdx info archiveInfo)
    else none
  | .error _ => none

def ErrorOf (env : Env) (repoIdx : Nat) (line : Str) : Prop := ∃ e, line = errorText env repoIdx e

variable {repoIdx : Nat} {result : ArchivePushCheckResult}

theorem keptData_isSome {reference : Nat × Nat} :
    (keptData env reference repoIdx).isSome ↔ stored env repoIdx = some reference := by
  rw [keptData, stored]
  cases load : repoLoad env repoIdx with
  | error e => simp
  | ok loaded =>
    obtain ⟨info, archiveInfo⟩ := loaded
    dsimp only
    by_cases same : (archiveInfo.version, archiveInfo.systemId) = reference
    · simp [same]
    · simp [same]

theorem keptData_repoIdx {reference : Nat × Nat} {data : ArchivePushFileRepoData}
    (kept : keptData env reference repoIdx = some data) : data.repoIdx = repoIdx := by
  rw [keptData] at kept
  split at kept
  · split at kept
    · cases kept
      rfl
    · cases kept
  · cases kept

/-- The state of the loop before a repository is checked: it is compared with the reference,
or sets it. -/
def Ready (env : Env) (pgPathSet : Bool) (reference : Nat × Nat) (result : ArchivePushCheckResult)
    (repoIdx : Nat) : Prop :=
  ((result.pgVersion, result.pgSystemId) = reference ∧
      (pgPathSet = true ∨ 0 < repoIdx ∨ stored env repoIdx = none)) ∨
    (pgPathSet = false ∧ repoIdx = 0 ∧ stored env repoIdx = some reference)

theorem repoCheck_of_match {reference : Nat × Nat}
    (ready : Ready env pgPathSet reference result repoIdx) {info : InfoArchive}
    {archiveInfo : InfoPgData} (load : repoLoad env repoIdx = .ok (info, archiveInfo))
    (same : (archiveInfo.version, archiveInfo.systemId) = reference) :
    repoCheck env pgPathSet result repoIdx = .ok { result with
      pgVersion := archiveInfo.version
      pgSystemId := archiveInfo.systemId
      repoList := result.repoList ++ [repoData env repoIdx info archiveInfo] } := by
  have passes : ¬ ((pgPathSet = true ∨ repoIdx > 0) ∧
      (result.pgVersion ≠ archiveInfo.version ∨ result.pgSystemId ≠ archiveInfo.systemId)) := by
    rintro ⟨compared, differs⟩
    rcases ready with ⟨held, -⟩ | ⟨unset, first, -⟩
    · obtain ⟨version, systemId⟩ := Prod.mk.inj (held.trans same.symm)
      rcases differs with differs | differs
      · exact differs version
      · exact differs systemId
    · rcases compared with set | later
      · rw [unset] at set
        cases set
      · omega
  rw [repoCheck, load]
  exact if_neg passes

theorem repoCheck_of_differs {reference : Nat × Nat}
    (ready : Ready env pgPathSet reference result repoIdx)
    (differs : stored env repoIdx ≠ some reference) :
    (result.pgVersion, result.pgSystemId) = reference ∧
      ∃ e, repoCheck env pgPathSet result repoIdx = .error e := by
  rcases ready with ⟨held, compared⟩ | ⟨-, -, sets⟩
  · refine ⟨held, ?_⟩
    rw [repoCheck]
    cases load : repoLoad env repoIdx with
    | error e => exact ⟨e, rfl⟩
    | ok loaded =>
      obtain ⟨info, archiveInfo⟩ := loaded
      have value : stored env repoIdx = some (archiveInfo.version, archiveInfo.systemId) := by
        rw [stored, load]
      have refused : (pgPathSet = true ∨ repoIdx > 0) ∧
          (result.pgVersion ≠ archiveInfo.version ∨
            result.pgSystemId ≠ archiveInfo.systemId) := by
        constructor
        · rcases compared with set | later | absent
          · exact .inl set
          · exact .inr later
          · rw [value] at absent
            cases absent
        · by_contra equal
          push Not at equal
          apply differs
          rw [value, ← held, equal.1, equal.2]
      exact ⟨_, if_pos refused⟩
  · exact absurd sets differs

theorem repoStep_spec {reference : Nat × Nat} (ready : Ready env pgPathSet reference result repoIdx) :
    let next := repoStep env pgPathSet result repoIdx
    (next.pgVersion, next.pgSystemId) = reference ∧
      next.repoList = result.repoList ++ (keptData env reference repoIdx).toList ∧
      if stored env repoIdx = some reference then next.errorList = result.errorList
      else ∃ line, ErrorOf env repoIdx line ∧ next.errorList = result.errorList ++ [line] := by
  dsimp only
  by_cases fits : stored env repoIdx = some reference
  · rw [if_pos fits]
    cases load : repoLoad env repoIdx with
    | error e =>
      rw [stored, load] at fits
      cases fits
    | ok loaded =>
      obtain ⟨info, archiveInfo⟩ := loaded
      have same : (archiveInfo.version, archiveInfo.systemId) = reference := by
        rw [stored, load] at fits
        exact Option.some.inj fits
      have data : keptData env reference repoIdx = some (repoData env repoIdx info archiveInfo) := by
        rw [keptData, load]
        exact if_pos same
      rw [repoStep, repoCheck_of_match ready load same, data]
      exact ⟨same, rfl, rfl⟩
  · rw [if_neg fits]
    obtain ⟨held, e, check⟩ := repoCheck_of_differs ready fits
    have none : keptData env reference repoIdx = none := by
      rw [← Option.not_isSome_iff_eq_none, keptData_isSome]
      exact fits
    rw [repoStep, check, none]
    exact ⟨held, (List.append_nil _).symm, errorText env repoIdx e, ⟨e, rfl⟩, rfl⟩

/-- The values every repository but the first is compared with. -/
def reference (env : Env) (pgPathSet : Bool) (init : ArchivePushCheckResult) : Nat × Nat :=
  if pgPathSet then (init.pgVersion, init.pgSystemId)
  else (stored env 0).getD (init.pgVersion, init.pgSystemId)

theorem ready_zero (init : ArchivePushCheckResult) :
    Ready env pgPathSet (reference env pgPathSet init) init 0 := by
  cases pgPathSet with
  | true => exact .inl ⟨rfl, .inl rfl⟩
  | false =>
    cases first : stored env 0 with
    | none =>
      refine .inl ⟨?_, .inr (.inr first)⟩
      simp [reference, first]
    | some values =>
      refine .inr ⟨rfl, rfl, ?_⟩
      simp [reference, first]

theorem loop_spec {init : ArchivePushCheckResult} (noRepo : init.repoList = [])
    (noError : init.errorList = []) (total : Nat) :
    let ref := reference env pgPathSet init
    let result := (List.range total).foldl (repoStep env pgPathSet) init
    Ready env pgPathSet ref result total ∧
      result.repoList = (List.range total).filterMap (keptData env ref) ∧
      List.Forall₂ (ErrorOf env)
        ((List.range total).filter (fun repoIdx => stored env repoIdx ≠ some ref))
        result.errorList := by
  dsimp only
  induction total with
  | zero =>
    refine ⟨ready_zero init, noRepo, ?_⟩
    change List.Forall₂ _ [] init.errorList
    rw [noError]
    exact .nil
  | succ total ih =>
    obtain ⟨ready, repos, errors⟩ := ih
    rw [List.range_succ, List.foldl_append, List.foldl_cons, List.foldl_nil,
      List.filterMap_append, List.filter_append]
    obtain ⟨held, list, lines⟩ := repoStep_spec ready
    refine ⟨.inl ⟨held, .inr (.inl (Nat.succ_pos total))⟩, ?_, ?_⟩
    · rw [list, repos]
      cases data : keptData env (reference env pgPathSet init) total with
      | none => simp [data]
      | some repo => simp [data]
    · by_cases fits : stored env total = some (reference env pgPathSet init)
      · rw [if_pos fits] at lines
        rw [lines]
        simpa [fits] using errors
      · rw [if_neg fits] at lines
        obtain ⟨line, about, eq⟩ := lines
        rw [eq]
        have single : [total].filter
            (fun repoIdx => stored env repoIdx ≠ some (reference env pgPathSet init)) = [total] := by
          simp [fits]
        rw [single]
        exact List.rel_append errors (.cons about .nil)

theorem map_repoIdx_kept {ref : Nat × Nat} (total : Nat) :
    ((List.range total).filterMap (keptData env ref)).map (·.repoIdx) =
      (List.range total).filter (fun repoIdx => stored env repoIdx = some ref) := by
  induction List.range total with
  | nil => rfl
  | cons repoIdx rest ih =>
    rw [List.filterMap_cons, List.filter_cons]
    cases data : keptData env ref repoIdx with
    | none =>
      have apart : stored env repoIdx ≠ some ref := by
        rw [Ne, ← keptData_isSome, data]
        exact Bool.false_ne_true
      rw [decide_eq_false apart]
      exact ih
    | some repo =>
      have same : stored env repoIdx = some ref := by
        rw [← keptData_isSome, data]
        rfl
      rw [decide_eq_true same, if_pos rfl, ← ih, ← keptData_repoIdx data]
      rfl

/-- The repositories with the reference values are kept and the others reported. Without such
a repository the check throws. -/
theorem archivePushCheck_spec {init : ArchivePushCheckResult}
    (start : resultInit env pgPathSet = .ok init) :
    let ref := reference env pgPathSet init
    (∃ e, archivePushCheck env pgPathSet = .error e) ∧
        (∀ repoIdx < env.repoTotal, stored env repoIdx ≠ some ref) ∨
      ∃ result, archivePushCheck env pgPathSet = .ok result ∧
        (∃ repoIdx < env.repoTotal, stored env repoIdx = some ref) ∧
        result.repoList.map (·.repoIdx) =
          (List.range env.repoTotal).filter (fun repoIdx => stored env repoIdx = some ref) ∧
        List.Forall₂ (ErrorOf env)
          ((List.range env.repoTotal).filter (fun repoIdx => stored env repoIdx ≠ some ref))
          result.errorList := by
  have empty : init.repoList = [] ∧ init.errorList = [] := by
    rw [resultInit] at start
    split at start
    · cases control : env.pgControlFromFile with
      | error e =>
        rw [control] at start
        cases start
      | ok pgControl =>
        rw [control] at start
        cases start
        exact ⟨rfl, rfl⟩
    · cases start
      exact ⟨rfl, rfl⟩
  obtain ⟨-, repos, errors⟩ := @loop_spec env pgPathSet init empty.1 empty.2 env.repoTotal
  have names := @map_repoIdx_kept env (reference env pgPathSet init) env.repoTotal
  rw [← repos] at names
  rw [archivePushCheck, start]
  dsimp only
  cases none : (List.foldl (repoStep env pgPathSet) init
      (List.range env.repoTotal)).repoList.isEmpty with
  | true =>
    left
    refine ⟨⟨_, if_pos none⟩, ?_⟩
    rw [List.isEmpty_iff.mp none] at names
    intro repoIdx inRange fits
    have mem : repoIdx ∈ (List.range env.repoTotal).filter
        (fun repoIdx => stored env repoIdx = some (reference env pgPathSet init)) :=
      List.mem_filter.mpr ⟨List.mem_range.mpr inRange, decide_eq_true fits⟩
    rw [← names] at mem
    cases mem
  | false =>
    right
    refine ⟨_, if_neg (Bool.eq_false_iff.mp none), ?_, names, errors⟩
    cases list : (List.foldl (repoStep env pgPathSet) init
        (List.range env.repoTotal)).repoList with
    | nil =>
      rw [list] at none
      cases none
    | cons data rest =>
      rw [list] at names
      have mem : data.repoIdx ∈ (List.range env.repoTotal).filter
          (fun repoIdx => stored env repoIdx = some (reference env pgPathSet init)) := by
        rw [← names]
        exact List.mem_cons_self
      obtain ⟨inRange, fits⟩ := List.mem_filter.mp mem
      exact ⟨data.repoIdx, List.mem_range.mp inRange, of_decide_eq_true fits⟩

end Loop

/-! ## What the check is for -/

section Claim

def FirstLoaded (env : Env) (repoIdx : Nat) (values : Nat × Nat) : Prop :=
  repoIdx < env.repoTotal ∧ stored env repoIdx = some values ∧
    ∀ earlier < repoIdx, stored env earlier = none

/-- Does the repository match `pg_control`, or else the first repository that loads? -/
def Fits (env : Env) (pgPathSet : Bool) (repoIdx : Nat) : Prop :=
  ∃ values, stored env repoIdx = some values ∧
    if pgPathSet then
      ∃ pgControl, env.pgControlFromFile = .ok pgControl ∧
        values = (pgControl.version, pgControl.systemId)
    else ∃ first, FirstLoaded env first values

structure KeepsFitting (env : Env) (pgPathSet : Bool) : Prop where
  kept : ∀ result, archivePushCheck env pgPathSet = .ok result →
    (result.repoList.map (·.repoIdx)).Nodup ∧
      ∀ repoIdx, repoIdx ∈ result.repoList.map (·.repoIdx) ↔
        repoIdx < env.repoTotal ∧ Fits env pgPathSet repoIdx
  reported : ∀ result, archivePushCheck env pgPathSet = .ok result →
    ∃ others : List Nat, others.Nodup ∧ List.Forall₂ (ErrorOf env) others result.errorList ∧
      ∀ repoIdx, repoIdx ∈ others ↔ repoIdx < env.repoTotal ∧ ¬ Fits env pgPathSet repoIdx
  throws : (∃ e, archivePushCheck env pgPathSet = .error e) ↔
    ∀ repoIdx < env.repoTotal, ¬ Fits env pgPathSet repoIdx

theorem firstLoaded_unique {env : Env} {a b : Nat} {v w : Nat × Nat}
    (ha : FirstLoaded env a v) (hb : FirstLoaded env b w) : a = b ∧ v = w := by
  have same : a = b := by
    rcases lt_trichotomy a b with lt | eq | gt
    · have none := hb.2.2 a lt
      rw [ha.2.1] at none
      cases none
    · exact eq
    · have none := ha.2.2 b gt
      rw [hb.2.1] at none
      cases none
  subst same
  exact ⟨rfl, Option.some.inj (ha.2.1.symm.trans hb.2.1)⟩

theorem exists_firstLoaded {env : Env} {repoIdx : Nat} {values : Nat × Nat}
    (inRange : repoIdx < env.repoTotal) (loads : stored env repoIdx = some values) :
    ∃ first v, FirstLoaded env first v := by
  induction repoIdx using Nat.strong_induction_on generalizing values with
  | _ repoIdx ih =>
    by_cases none : ∀ earlier < repoIdx, stored env earlier = none
    · exact ⟨repoIdx, values, inRange, loads, none⟩
    · push Not at none
      obtain ⟨earlier, lt, some⟩ := none
      obtain ⟨v, hv⟩ := Option.ne_none_iff_exists'.mp some
      exact ih earlier lt (lt.trans inRange) hv

variable {env : Env} {pgPathSet : Bool}

theorem keepsFitting_iff {init : ArchivePushCheckResult}
    (start : resultInit env pgPathSet = .ok init) :
    KeepsFitting env pgPathSet ↔ ∀ repoIdx < env.repoTotal,
      (stored env repoIdx = some (reference env pgPathSet init) ↔ Fits env pgPathSet repoIdx) := by
  rcases archivePushCheck_spec start with ⟨throws, none⟩ | ⟨result, ok, some, names, errors⟩
  · constructor
    · intro keeps repoIdx inRange
      exact iff_of_false (none repoIdx inRange) (keeps.throws.mp throws repoIdx inRange)
    · intro same
      obtain ⟨e, error⟩ := throws
      refine ⟨?_, ?_, iff_of_true ⟨e, error⟩ ?_⟩
      · intro result ok
        rw [error] at ok
        cases ok
      · intro result ok
        rw [error] at ok
        cases ok
      · exact fun repoIdx inRange fits => none repoIdx inRange ((same repoIdx inRange).mpr fits)
  · constructor
    · intro keeps repoIdx inRange
      have mem := (keeps.kept result ok).2 repoIdx
      rw [names, List.mem_filter, List.mem_range, decide_eq_true_eq, and_congr_right_iff] at mem
      exact mem inRange
    · intro same
      refine ⟨?_, ?_, iff_of_false ?_ ?_⟩
      · intro other ok'
        cases ok.symm.trans ok'
        rw [names]
        refine ⟨List.nodup_range.filter _, fun repoIdx => ?_⟩
        rw [List.mem_filter, List.mem_range, decide_eq_true_eq, and_congr_right_iff]
        exact same repoIdx
      · intro other ok'
        cases ok.symm.trans ok'
        refine ⟨_, List.nodup_range.filter _, errors, fun repoIdx => ?_⟩
        rw [List.mem_filter, List.mem_range, decide_eq_true_eq, and_congr_right_iff]
        exact fun inRange => not_congr (same repoIdx inRange)
      · rintro ⟨e, error⟩
        rw [ok] at error
        cases error
      · intro noneFits
        obtain ⟨repoIdx, inRange, fits⟩ := some
        exact noneFits repoIdx inRange ((same repoIdx inRange).mp fits)

/-- Without a pg path the reference stays zero when the first repository does not load. -/
theorem archivePushCheck_keeps_iff (env : Env) (pgPathSet : Bool) :
    KeepsFitting env pgPathSet ↔
      pgPathSet = true ∨
        ∀ first values, FirstLoaded env first values → first = 0 ∨ values = (0, 0) := by
  cases pgPathSet with
  | true =>
    refine iff_of_true ?_ (.inl rfl)
    cases control : env.pgControlFromFile with
    | error e =>
      have fails : archivePushCheck env true = .error e := by
        rw [archivePushCheck, resultInit, if_pos rfl, control]
        rfl
      have none : ∀ repoIdx, ¬ Fits env true repoIdx := by
        rintro repoIdx ⟨values, -, pgControl, ok, -⟩
        rw [control] at ok
        cases ok
      refine ⟨?_, ?_, iff_of_true ⟨e, fails⟩ fun repoIdx _ => none repoIdx⟩
      · intro result ok
        rw [fails] at ok
        cases ok
      · intro result ok
        rw [fails] at ok
        cases ok
    | ok pgControl =>
      have start : resultInit env true =
          .ok { pgVersion := pgControl.version, pgSystemId := pgControl.systemId } := by
        rw [resultInit, if_pos rfl, control]
        rfl
      rw [keepsFitting_iff start]
      intro repoIdx _
      constructor
      · exact fun fits => ⟨_, fits, pgControl, control, rfl⟩
      · rintro ⟨values, fits, pgControl', control', rfl⟩
        cases control.symm.trans control'
        exact fits
  | false =>
    have start : resultInit env false = .ok {} := rfl
    rw [keepsFitting_iff start, or_iff_right Bool.false_ne_true]
    constructor
    · intro same first values isFirst
      by_contra apart
      push Not at apart
      have none := isFirst.2.2 0 (Nat.pos_of_ne_zero apart.1)
      have fits := (same first isFirst.1).mpr ⟨values, isFirst.2.1, first, isFirst⟩
      rw [isFirst.2.1, reference, none] at fits
      exact apart.2 (Option.some.inj fits)
    · intro starts repoIdx inRange
      have referenceOf : ∀ first values, FirstLoaded env first values →
          reference env false {} = values := by
        intro first values isFirst
        rcases starts first values isFirst with rfl | rfl
        · rw [reference, isFirst.2.1]
          rfl
        · cases zero : stored env 0 with
          | none =>
            rw [reference, zero]
            rfl
          | some v =>
            have zeroFirst : FirstLoaded env 0 v :=
              ⟨(Nat.zero_le first).trans_lt isFirst.1, zero, by simp⟩
            rw [reference, zero]
            exact (firstLoaded_unique zeroFirst isFirst).2
      constructor
      · intro fits
        obtain ⟨first, values, isFirst⟩ := exists_firstLoaded inRange fits
        refine ⟨_, fits, first, ?_⟩
        rw [referenceOf first values isFirst]
        exact isFirst
      · rintro ⟨values, fits, first, isFirst⟩
        rw [fits, referenceOf first values isFirst]

def firstMissing : Env where
  repoTotal := 2
  groupIdxToKey := (· + 1)
  pgControlFromFile := .ok ⟨90600, 1⟩
  storageRepoIdx repoIdx :=
    .ok (if repoIdx = 0 then ⟨[]⟩
      else ⟨[(infoArchiveFile, .file (.infoArchive ⟨⟨[⟨1, 1, 1, 90600⟩], 0⟩⟩))]⟩)
  repoCipherType _ := .none
  infoArchiveCipherPass _ := none

/-- The second repository is the first that loads, and it is dropped. -/
theorem archivePushCheck_firstMissing :
    FirstLoaded firstMissing 1 (90600, 1) ∧ Fits firstMissing false 1 ∧
      ¬ KeepsFitting firstMissing false := by
  have first : FirstLoaded firstMissing 1 (90600, 1) := by
    refine ⟨by decide, rfl, fun earlier lt => ?_⟩
    obtain rfl : earlier = 0 := by omega
    rfl
  have fits : Fits firstMissing false 1 := ⟨(90600, 1), rfl, 1, first⟩
  refine ⟨first, fits, fun keeps => ?_⟩
  have throws : ∃ e, archivePushCheck firstMissing false = .error e := ⟨_, rfl⟩
  exact keeps.throws.mp throws 1 (by decide) fits

end Claim

end ArchivePushCheck
