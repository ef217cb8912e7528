import Backrest.BackupInfo

/-!
# The backup set to restore

A restore looks for its backup set in the repositories in order. A set that was asked for,
a time target and neither of them lead to three searches in one loop. A repository that
cannot be loaded is passed over, but one whose storage cannot be reached ends the search.
-/

namespace RestoreSet

open Text BackupCommon BackupInfo

/-! ## The code -/

/-- What a restore reads of `backup.info`. Backups are listed in the order of their labels
and stop after 1970. -/
structure RepoInfo where
  backup : List InfoBackupData
  cipherPass : Option Str
  ordered : Ordered backup
  stopped : ∀ data ∈ backup, 0 ≤ data.backupTimestampStop

/-- A repository, with what `storageRepoIdx` and `infoBackupLoadFile` give for it. -/
structure Repo where
  repoIdx : Nat
  cipherType : CipherType
  storage : Except Error Unit
  infoBackup : Except Error RepoInfo
  reason : ∀ e, storage = .error e → e.type ≠ .backupSetInvalidError

structure RestoreBackupData where
  repoIdx : Nat
  repoCipherType : CipherType
  backupCipherPass : Option Str
  backupSet : Str
  deriving DecidableEq

inductive RecoveryType where
  | default_
  | immediate
  | lsn
  | name
  | none
  | preserve
  | standby
  | time
  | xid
  deriving DecidableEq

/-- The options, with the value of `getEpoch` on the target. -/
structure Param where
  set : Option Str
  type : RecoveryType
  targetEpoch : Int
  repo : Option Nat

inductive Check where
  | found (data : RestoreBackupData)
  | candidate (data : RestoreBackupData)
  | next

def restoreBackupData (backupLabel : Str) (repo : Repo) (info : RepoInfo) : RestoreBackupData :=
  ⟨repo.repoIdx, repo.cipherType, info.cipherPass, backupLabel⟩

/-- One repository of the loop. -/
def repoCheck (backupSetRequested : Option Str) (timeTargetEpoch : Int) (repo : Repo) :
    Except Error Check :=
  match repo.storage, repo.infoBackup with
  | .error e, _ => .error e
  | .ok _, .error _ => .ok .next
  | .ok _, .ok info =>
    match info.backup.getLast? with
    | none => .ok .next
    | some latestBackup =>
      match backupSetRequested with
      | none =>
        if timeTargetEpoch ≠ 0 then
          -- from the newest to the oldest
          match info.backup.reverse.find? (fun data =>
              decide (data.backupTimestampStop < timeTargetEpoch)) with
          | some data => .ok (.found (restoreBackupData data.backupLabel repo info))
          | none => .ok (.candidate (restoreBackupData latestBackup.backupLabel repo info))
        else .ok (.found (restoreBackupData latestBackup.backupLabel repo info))
      | some set =>
        if info.backup.any (fun data => decide (data.backupLabel = set)) then
          .ok (.found (restoreBackupData set repo info))
        else .ok .next

def repoLoop (backupSetRequested : Option Str) (timeTargetEpoch : Int) :
    List Repo → List RestoreBackupData →
    Except Error (Option RestoreBackupData × List RestoreBackupData)
  | [], backupCandidateList => .ok (none, backupCandidateList)
  | repo :: rest, backupCandidateList =>
    match repoCheck backupSetRequested timeTargetEpoch repo with
    | .error e => .error e
    | .ok (.found data) => .ok (some data, backupCandidateList)
    | .ok (.candidate data) =>
      repoLoop backupSetRequested timeTargetEpoch rest (backupCandidateList ++ [data])
    | .ok .next => repoLoop backupSetRequested timeTargetEpoch rest backupCandidateList

/-- The time is looked at only without a set. -/
def timeTargetEpoch (param : Param) : Int :=
  if param.set = none ∧ param.type = .time then param.targetEpoch else 0

def searched (param : Param) (repos : List Repo) : List Repo :=
  match param.repo with
  | none => repos
  | some repoIdx => (repos.drop repoIdx).take 1

def setError (set : Str) : Error :=
  ⟨.backupSetInvalidError, "backup set ".toList ++ set ++ " is not valid".toList⟩

def noSetError : Error := ⟨.backupSetInvalidError, "no backup set found to restore".toList⟩

def restoreBackupSet (param : Param) (repos : List Repo) : Except Error RestoreBackupData :=
  match repoLoop param.set (timeTargetEpoch param) (searched param repos) [] with
  | .error e => .error e
  | .ok (some data, _) => .ok data
  | .ok (none, backupCandidateList) =>
    match param.set, backupCandidateList with
    | some set, _ => .error (setError set)
    | none, candidate :: _ =>
      if timeTargetEpoch param ≠ 0 then .ok candidate else .error noSetError
    | none, [] => .error noSetError

/-! ## The set that is wanted -/

/-- The `backup.info` of a repository that can be reached. -/
def loaded (repo : Repo) : Option RepoInfo :=
  match repo.storage, repo.infoBackup with
  | .ok _, .ok info => some info
  | _, _ => none

def Lists (set : Str) (repo : Repo) : Prop :=
  ∃ info, loaded repo = some info ∧ ∃ data ∈ info.backup, data.backupLabel = set

def HasBefore (epoch : Int) (repo : Repo) : Prop :=
  ∃ info, loaded repo = some info ∧ ∃ data ∈ info.backup, data.backupTimestampStop < epoch

def Usable (repo : Repo) : Prop := ∃ info, loaded repo = some info ∧ info.backup ≠ []

def IsFirst (P : Repo → Prop) (repos : List Repo) (repo : Repo) : Prop :=
  ∃ before after, repos = before ++ repo :: after ∧ P repo ∧ ∀ r ∈ before, ¬ P r

def IsLatest (P : InfoBackupData → Prop) (info : RepoInfo) (label : Str) : Prop :=
  ∃ data ∈ info.backup, P data ∧ data.backupLabel = label ∧
    ∀ other ∈ info.backup, P other → other.backupLabel ≤ label

inductive Selects (repos : List Repo) : Option Str → Option Int → RestoreBackupData → Prop where
  | requested {set : Str} {target : Option Int} {repo : Repo} {info : RepoInfo}
      (first : IsFirst (Lists set) repos repo) (isLoaded : loaded repo = some info) :
      Selects repos (some set) target (restoreBackupData set repo info)
  | before {epoch : Int} {repo : Repo} {info : RepoInfo} {label : Str}
      (first : IsFirst (HasBefore epoch) repos repo) (isLoaded : loaded repo = some info)
      (latest : IsLatest (·.backupTimestampStop < epoch) info label) :
      Selects repos none (some epoch) (restoreBackupData label repo info)
  | noneBefore {epoch : Int} {repo : Repo} {info : RepoInfo} {label : Str}
      (absent : ∀ repo ∈ repos, ¬ HasBefore epoch repo) (first : IsFirst Usable repos repo)
      (isLoaded : loaded repo = some info) (latest : IsLatest (fun _ => True) info label) :
      Selects repos none (some epoch) (restoreBackupData label repo info)
  | latest {repo : Repo} {info : RepoInfo} {label : Str} (first : IsFirst Usable repos repo)
      (isLoaded : loaded repo = some info) (latest : IsLatest (fun _ => True) info label) :
      Selects repos none none (restoreBackupData label repo info)

def target (param : Param) : Option Int := if param.type = .time then some param.targetEpoch else none

/-- The wanted set is returned, and without one the set is reported as invalid. -/
structure Right (param : Param) (repos : List Repo) (result : Except Error RestoreBackupData) :
    Prop where
  set : ∀ data, result = .ok data ↔ Selects (searched param repos) param.set (target param) data
  invalid : (∃ e, result = .error e ∧ e.type = .backupSetInvalidError) ↔
    ∀ data, ¬ Selects (searched param repos) param.set (target param) data

/-- The search ends at this repository. A target epoch of 0 is taken as none. -/
def decides (backupSetRequested : Option Str) (timeTargetEpoch : Int) (repo : Repo) : Bool :=
  match loaded repo, backupSetRequested with
  | none, _ => false
  | some info, some set => info.backup.any (fun data => decide (data.backupLabel = set))
  | some info, none =>
    if timeTargetEpoch = 0 then !info.backup.isEmpty
    else info.backup.any (fun data => decide (data.backupTimestampStop < timeTargetEpoch))

/-! ## One repository -/

section OneRepo

variable {set : Option Str} {epoch : Int} {repo : Repo} {info : RepoInfo} {data : RestoreBackupData}

theorem IsLatest.unique {P : InfoBackupData → Prop} {label label' : Str}
    (one : IsLatest P info label) (two : IsLatest P info label') : label = label' := by
  obtain ⟨data, mem, isP, rfl, atMost⟩ := one
  obtain ⟨data', mem', isP', rfl, atMost'⟩ := two
  exact le_antisymm (atMost' data mem isP) (atMost data' mem' isP')

theorem label_le_of_last {front : List InfoBackupData} {latest : InfoBackupData}
    (ordered : Ordered (front ++ [latest])) :
    ∀ other ∈ front ++ [latest], other.backupLabel ≤ latest.backupLabel := by
  intro other mem
  rcases List.mem_append.mp mem with mem | mem
  · exact ((List.pairwise_append.mp ordered).2.2 other mem latest (List.mem_singleton_self _)).le
  · rw [List.mem_singleton.mp mem]

theorem isLatest_getLast {latest : InfoBackupData} (last : info.backup.getLast? = some latest) :
    IsLatest (fun _ => True) info latest.backupLabel := by
  obtain ⟨front, split⟩ := List.getLast?_eq_some_iff.mp last
  have ordered := info.ordered
  rw [split] at ordered
  refine ⟨latest, by simp [split], trivial, rfl, fun other mem _ => ?_⟩
  rw [split] at mem
  exact label_le_of_last ordered other mem

/-- The first backup from the end with a property is the latest with it. -/
theorem isLatest_find {p : InfoBackupData → Bool} {found : InfoBackupData}
    (isFound : info.backup.reverse.find? p = some found) :
    IsLatest (p · = true) info found.backupLabel := by
  obtain ⟨holds, later, earlier, split, notLater⟩ := List.find?_eq_some_iff_append.mp isFound
  have whole : info.backup = (earlier.reverse ++ [found]) ++ later.reverse := by
    have turned := congrArg List.reverse split
    simpa using turned
  have ordered := info.ordered
  rw [whole] at ordered
  refine ⟨found, by simp [whole], holds, rfl, fun other mem isP => ?_⟩
  rw [whole] at mem
  rcases List.mem_append.mp mem with mem | mem
  · exact label_le_of_last (List.pairwise_append.mp ordered).1 other mem
  · have not := notLater other (List.mem_reverse.mp mem)
    rw [isP] at not
    cases not

theorem storage_of_loaded (isLoaded : loaded repo = some info) :
    repo.storage = .ok () ∧ repo.infoBackup = .ok info := by
  unfold loaded at isLoaded
  split at isLoaded
  · rename_i opens isInfo
    cases isLoaded
    exact ⟨opens, isInfo⟩
  · cases isLoaded

theorem decides_some_iff {label : Str} : decides (some label) epoch repo = true ↔ Lists label repo := by
  unfold decides Lists
  cases loaded repo with
  | none => simp
  | some info => simp [List.any_eq_true]

theorem decides_none_iff : decides none 0 repo = true ↔ Usable repo := by
  unfold decides Usable
  cases loaded repo with
  | none => simp
  | some info => simp

theorem decides_time_iff (some : epoch ≠ 0) : decides none epoch repo = true ↔ HasBefore epoch repo := by
  unfold decides HasBefore
  cases loaded repo with
  | none => simp
  | some info => simp [some, List.any_eq_true]

theorem Usable.of_decides (h : decides set epoch repo = true) : Usable repo := by
  unfold decides at h
  cases isLoaded : loaded repo with
  | none =>
    rw [isLoaded] at h
    cases h
  | some info =>
    refine ⟨info, isLoaded, fun empty => ?_⟩
    rw [isLoaded] at h
    cases set with
    | some set => simp [empty] at h
    | none => simp [empty] at h

def LatestOf (repo : Repo) (data : RestoreBackupData) : Prop :=
  ∃ info label, loaded repo = some info ∧ IsLatest (fun _ => True) info label ∧
    data = restoreBackupData label repo info

/-- What is taken from a repository that ends the search. -/
def Found (set : Option Str) (epoch : Int) (repo : Repo) (data : RestoreBackupData) : Prop :=
  ∃ info label, loaded repo = some info ∧ data = restoreBackupData label repo info ∧
    match set with
    | some set => label = set
    | none =>
      if epoch = 0 then IsLatest (fun _ => True) info label
      else IsLatest (·.backupTimestampStop < epoch) info label

theorem repoCheck_error {e : Error} (fails : repo.storage = .error e) :
    repoCheck set epoch repo = .error e := by
  rw [repoCheck, fails]

theorem repoCheck_found (h : decides set epoch repo = true) :
    ∃ data, repoCheck set epoch repo = .ok (.found data) ∧ Found set epoch repo data := by
  obtain ⟨info, isLoaded, some⟩ := Usable.of_decides h
  obtain ⟨opens, isInfo⟩ := storage_of_loaded isLoaded
  obtain ⟨latest, last⟩ := Option.ne_none_iff_exists'.mp (mt List.getLast?_eq_none_iff.mp some)
  unfold decides at h
  rw [isLoaded] at h
  rw [repoCheck, opens, isInfo]
  dsimp only at h ⊢
  rw [last]
  dsimp only
  cases set with
  | some set =>
    dsimp only at h ⊢
    rw [if_pos h]
    exact ⟨_, rfl, info, set, isLoaded, rfl, rfl⟩
  | none =>
    dsimp only at h ⊢
    by_cases zero : epoch = 0
    · rw [if_neg (not_not_intro zero)]
      refine ⟨_, rfl, info, _, isLoaded, rfl, ?_⟩
      dsimp only
      rw [if_pos zero]
      exact isLatest_getLast last
    · rw [if_neg zero, ← List.any_reverse, List.any_eq_true] at h
      rw [if_pos zero]
      cases isFound : info.backup.reverse.find?
          (fun data => decide (data.backupTimestampStop < epoch)) with
      | none =>
        obtain ⟨data, mem, stops⟩ := h
        exact absurd stops (List.find?_eq_none.mp isFound data mem)
      | some found =>
        refine ⟨_, rfl, info, _, isLoaded, rfl, ?_⟩
        dsimp only
        rw [if_neg zero]
        have latest := isLatest_find isFound
        simpa only [decide_eq_true_eq] using latest

theorem repoCheck_passes (opens : repo.storage = .ok ()) (h : decides set epoch repo = false) :
    (repoCheck set epoch repo = .ok .next ∧ (set = none → ¬ Usable repo)) ∨
      ∃ data, repoCheck set epoch repo = .ok (.candidate data) ∧ set = none ∧ epoch ≠ 0 ∧
        Usable repo ∧ LatestOf repo data := by
  rw [repoCheck, opens]
  cases isInfo : repo.infoBackup with
  | error e =>
    refine .inl ⟨rfl, fun _ usable => ?_⟩
    obtain ⟨info, isLoaded, -⟩ := usable
    rw [(storage_of_loaded isLoaded).2] at isInfo
    cases isInfo
  | ok info =>
    have isLoaded : loaded repo = some info := by rw [loaded, opens, isInfo]
    unfold decides at h
    rw [isLoaded] at h
    dsimp only at h ⊢
    cases last : info.backup.getLast? with
    | none =>
      refine .inl ⟨rfl, fun _ usable => ?_⟩
      obtain ⟨other, same, some⟩ := usable
      rw [isLoaded] at same
      cases same
      exact some (List.getLast?_eq_none_iff.mp last)
    | some latest =>
      cases set with
      | some set =>
        dsimp only at h ⊢
        exact .inl ⟨by rw [h]; rfl, fun absent => by cases absent⟩
      | none =>
        dsimp only at h ⊢
        have some : info.backup ≠ [] := by
          intro empty
          rw [empty] at last
          cases last
        by_cases zero : epoch = 0
        · rw [if_pos zero, Bool.not_eq_false', List.isEmpty_iff] at h
          exact absurd h some
        · rw [if_neg zero, ← List.any_reverse] at h
          have absent : info.backup.reverse.find?
              (fun data => decide (data.backupTimestampStop < epoch)) = none := by
            rw [List.find?_eq_none]
            intro data mem stops
            rw [List.any_eq_false] at h
            exact h data mem stops
          rw [if_pos zero, absent]
          exact .inr ⟨_, rfl, rfl, zero, ⟨info, isLoaded, some⟩, info, _, isLoaded,
            isLatest_getLast last, rfl⟩

end OneRepo

/-! ## All repositories -/

section AllRepos

variable {set : Option Str} {epoch : Int} {repos : List Repo}

variable {repo : Repo} {P : Repo → Prop}

theorem IsFirst.unique {repo' : Repo} (one : IsFirst P repos repo) (two : IsFirst P repos repo') :
    repo = repo' := by
  induction repos with
  | nil =>
    obtain ⟨before, after, split, -⟩ := one
    exact absurd split (by simp)
  | cons r rest ih =>
    obtain ⟨before, after, split, isP, none⟩ := one
    obtain ⟨before', after', split', isP', none'⟩ := two
    cases before with
    | nil =>
      cases before' with
      | nil =>
        cases split
        cases split'
        rfl
      | cons b before' =>
        cases split
        cases split'
        exact absurd isP (none' repo List.mem_cons_self)
    | cons b before =>
      cases before' with
      | nil =>
        cases split
        cases split'
        exact absurd isP' (none repo' List.mem_cons_self)
      | cons b' before' =>
        exact ih ⟨before, after, (List.cons.inj split).2, isP,
            fun r mem => none r (List.mem_cons_of_mem _ mem)⟩
          ⟨before', after', (List.cons.inj split').2, isP',
            fun r mem => none' r (List.mem_cons_of_mem _ mem)⟩

theorem IsFirst.here (isP : P repo) : IsFirst P (repo :: repos) repo :=
  ⟨[], repos, rfl, isP, fun _ mem => by cases mem⟩

theorem IsFirst.later {first : Repo} (not : ¬ P repo) (h : IsFirst P repos first) :
    IsFirst P (repo :: repos) first := by
  obtain ⟨before, after, rfl, isP, none⟩ := h
  exact ⟨repo :: before, after, rfl, isP, List.forall_mem_cons.mpr ⟨not, none⟩⟩

theorem IsFirst.congr {Q : Repo → Prop} (same : ∀ repo, P repo ↔ Q repo) (h : IsFirst P repos repo) :
    IsFirst Q repos repo := by
  obtain ⟨before, after, split, isP, none⟩ := h
  exact ⟨before, after, split, (same repo).mp isP, fun r mem isQ => none r mem ((same r).mpr isQ)⟩

theorem IsFirst.mem (h : IsFirst P repos repo) : repo ∈ repos ∧ P repo := by
  obtain ⟨before, after, rfl, isP, -⟩ := h
  exact ⟨List.mem_append_right _ List.mem_cons_self, isP⟩

/-- Every repository before the end of the search can be reached. -/
def Reached (set : Option Str) (epoch : Int) (repos : List Repo) : Prop :=
  ∀ repo ∈ repos.takeWhile (fun repo => !decides set epoch repo), repo.storage = .ok ()

def Candidates (set : Option Str) (epoch : Int) (repos : List Repo) (list : List RestoreBackupData) :
    Prop :=
  (list = [] ∧ (set = none → ∀ repo ∈ repos, ¬ Usable repo)) ∨
    ∃ repo data rest, list = data :: rest ∧ set = none ∧ epoch ≠ 0 ∧ IsFirst Usable repos repo ∧
      LatestOf repo data

/-- How the search through the repositories ends. -/
inductive Ended (set : Option Str) (epoch : Int) (repos : List Repo) (list : List RestoreBackupData) :
    Except Error (Option RestoreBackupData × List RestoreBackupData) → Prop where
  | error {e : Error} (reason : e.type ≠ .backupSetInvalidError) (unreached : ¬ Reached set epoch repos) :
      Ended set epoch repos list (.error e)
  | found {repo : Repo} {data : RestoreBackupData} {after : List RestoreBackupData}
      (reached : Reached set epoch repos)
      (first : IsFirst (fun repo => decides set epoch repo = true) repos repo)
      (isFound : Found set epoch repo data) : Ended set epoch repos list (.ok (some data, after))
  | none {more : List RestoreBackupData} (reached : Reached set epoch repos)
      (none : ∀ repo ∈ repos, decides set epoch repo = false)
      (candidates : Candidates set epoch repos more) :
      Ended set epoch repos list (.ok (Option.none, list ++ more))

theorem Candidates.next {list : List RestoreBackupData} (notUsable : set = none → ¬ Usable repo)
    (h : Candidates set epoch repos list) :
    Candidates set epoch (repo :: repos) list := by
  rcases h with ⟨rfl, none⟩ | ⟨first, data, rest, rfl, isNone, nonzero, isFirst, latest⟩
  · exact .inl ⟨rfl, fun isNone => List.forall_mem_cons.mpr ⟨notUsable isNone, none isNone⟩⟩
  · exact .inr ⟨first, data, rest, rfl, isNone, nonzero, isFirst.later (notUsable isNone), latest⟩

theorem reached_cons (h : decides set epoch repo = false) :
    Reached set epoch (repo :: repos) ↔ repo.storage = .ok () ∧ Reached set epoch repos := by
  rw [Reached, List.takeWhile_cons, if_pos (by rw [h]; rfl), List.forall_mem_cons]
  rfl

theorem Ended.step {list : List RestoreBackupData} (added : List RestoreBackupData)
    {result : Except Error (Option RestoreBackupData × List RestoreBackupData)}
    (opens : repo.storage = .ok ()) (passes : decides set epoch repo = false)
    (candidates : ∀ more, Candidates set epoch repos more →
      Candidates set epoch (repo :: repos) (added ++ more))
    (rest : Ended set epoch repos (list ++ added) result) :
    Ended set epoch (repo :: repos) list result := by
  cases rest with
  | error reason unreached =>
    exact .error reason fun reached => unreached ((reached_cons passes).mp reached).2
  | found reached first isFound =>
    refine .found ((reached_cons passes).mpr ⟨opens, reached⟩) (first.later ?_) isFound
    rw [passes]
    exact Bool.false_ne_true
  | none reached none isCandidates =>
    rw [List.append_assoc]
    exact .none ((reached_cons passes).mpr ⟨opens, reached⟩)
      (List.forall_mem_cons.mpr ⟨passes, none⟩) (candidates _ isCandidates)

theorem repoLoop_ended (set : Option Str) (epoch : Int) (repos : List Repo)
    (list : List RestoreBackupData) : Ended set epoch repos list (repoLoop set epoch repos list) := by
  induction repos generalizing list with
  | nil =>
    have ends : Ended set epoch [] list (.ok (none, list ++ [])) := .none (fun _ mem => by cases mem) (fun _ mem => by cases mem)
      (.inl ⟨rfl, fun _ _ mem => by cases mem⟩)
    rwa [List.append_nil] at ends
  | cons repo rest ih =>
    rw [repoLoop]
    cases decision : decides set epoch repo with
    | true =>
      obtain ⟨data, check, isFound⟩ := repoCheck_found decision
      rw [check]
      refine .found ?_ (.here decision) isFound
      rw [Reached, List.takeWhile_cons, if_neg (by rw [decision]; exact Bool.false_ne_true)]
      exact fun _ mem => by cases mem
    | false =>
      cases opens : repo.storage with
      | error e =>
        rw [repoCheck_error opens]
        refine .error (repo.reason e opens) fun reached => ?_
        rw [reached_cons decision, opens] at reached
        cases reached.1
      | ok _ =>
        rcases repoCheck_passes opens decision with
          ⟨check, notUsable⟩ | ⟨data, check, isNone, nonzero, usable, latest⟩
        · rw [check]
          refine Ended.step [] opens decision (fun more candidates => ?_) ?_
          · exact candidates.next notUsable
          · rw [List.append_nil]
            exact ih list
        · rw [check]
          refine Ended.step [data] opens decision (fun more _ => ?_) (ih _)
          exact .inr ⟨repo, data, more, rfl, isNone, nonzero, .here usable, latest⟩

theorem LatestOf.unique {data data' : RestoreBackupData} (one : LatestOf repo data)
    (two : LatestOf repo data') : data = data' := by
  obtain ⟨info, label, isLoaded, latest, rfl⟩ := one
  obtain ⟨info', label', isLoaded', latest', rfl⟩ := two
  cases isLoaded.symm.trans isLoaded'
  rw [latest.unique latest']

/-- At most one set is wanted. -/
theorem Selects.unique {target : Option Int} {data data' : RestoreBackupData}
    (one : Selects repos set target data) (two : Selects repos set target data') : data = data' := by
  cases one with
  | requested first isLoaded =>
    cases two with
    | requested first' isLoaded' =>
      cases first.unique first'
      cases isLoaded.symm.trans isLoaded'
      rfl
  | before first isLoaded latest =>
    cases two with
    | before first' isLoaded' latest' =>
      cases first.unique first'
      cases isLoaded.symm.trans isLoaded'
      rw [latest.unique latest']
    | noneBefore absent' => exact absurd first.mem.2 (absent' _ first.mem.1)
  | noneBefore absent first isLoaded latest =>
    cases two with
    | before first' => exact absurd first'.mem.2 (absent _ first'.mem.1)
    | noneBefore _ first' isLoaded' latest' =>
      cases first.unique first'
      exact LatestOf.unique ⟨_, _, isLoaded, latest, rfl⟩ ⟨_, _, isLoaded', latest', rfl⟩
  | latest first isLoaded latest =>
    cases two with
    | latest first' isLoaded' latest' =>
      cases first.unique first'
      exact LatestOf.unique ⟨_, _, isLoaded, latest, rfl⟩ ⟨_, _, isLoaded', latest', rfl⟩

/-- Nothing stops before 1970. -/
theorem not_hasBefore_zero (repo : Repo) : ¬ HasBefore 0 repo := by
  rintro ⟨info, -, data, mem, stops⟩
  have atLeast := info.stopped data mem
  omega

end AllRepos

section Result

variable {param : Param} {repos : List Repo}

theorem epoch_cases (param : Param) :
    (∃ set, param.set = some set) ∨
    (param.set = none ∧ target param = none ∧ timeTargetEpoch param = 0) ∨
    param.set = none ∧ target param = some (timeTargetEpoch param) := by
  cases isSet : param.set with
  | some set => exact .inl ⟨set, rfl⟩
  | none =>
    rw [target, timeTargetEpoch, isSet]
    by_cases time : param.type = .time
    · exact .inr (.inr ⟨rfl, by rw [if_pos time, if_pos ⟨rfl, time⟩]⟩)
    · exact .inr (.inl ⟨rfl, if_neg time, if_neg fun both => time both.2⟩)

/-- What ends the search is what is wanted. -/
theorem selects_of_found {repo : Repo} {data : RestoreBackupData}
    (first : IsFirst (fun repo => decides param.set (timeTargetEpoch param) repo = true) repos repo)
    (isFound : Found param.set (timeTargetEpoch param) repo data) :
    Selects repos param.set (target param) data := by
  obtain ⟨info, label, isLoaded, rfl, which⟩ := isFound
  rcases epoch_cases param with ⟨set, isSet⟩ | ⟨isNone, noTarget, zero⟩ | ⟨isNone, isTarget⟩
  · rw [isSet] at first which ⊢
    dsimp only at which
    subst which
    exact .requested (first.congr fun _ => decides_some_iff) isLoaded
  · rw [isNone, zero] at first which
    rw [isNone, noTarget]
    exact .latest (first.congr fun _ => decides_none_iff) isLoaded which
  · rw [isNone] at first which
    rw [isNone, isTarget]
    by_cases zero : timeTargetEpoch param = 0
    · rw [zero] at first which ⊢
      exact .noneBefore (fun repo _ => not_hasBefore_zero repo)
        (first.congr fun _ => decides_none_iff) isLoaded which
    · dsimp only at which
      rw [if_neg zero] at which
      exact .before (first.congr fun _ => decides_time_iff zero) isLoaded which

/-- Without a repository that ends the search only the first candidate is wanted. -/
theorem selects_iff_of_none {more : List RestoreBackupData}
    (none : ∀ repo ∈ repos, decides param.set (timeTargetEpoch param) repo = false)
    (candidates : Candidates param.set (timeTargetEpoch param) repos more)
    (data : RestoreBackupData) :
    Selects repos param.set (target param) data ↔
      param.set = Option.none ∧ timeTargetEpoch param ≠ 0 ∧ more.head? = some data := by
  have notDecides : ∀ {repo}, repo ∈ repos →
      ¬ decides param.set (timeTargetEpoch param) repo = true := by
    intro repo mem
    rw [none repo mem]
    exact Bool.false_ne_true
  have absent : param.set = Option.none → timeTargetEpoch param ≠ 0 →
      ∀ repo ∈ repos, ¬ HasBefore (timeTargetEpoch param) repo := by
    intro isNone nonzero repo mem has
    have not := notDecides mem
    rw [isNone, decides_time_iff nonzero] at not
    exact not has
  have unusable : param.set = Option.none → timeTargetEpoch param = 0 →
      ∀ repo ∈ repos, ¬ Usable repo := by
    intro isNone zero repo mem usable
    have not := notDecides mem
    rw [isNone, zero, decides_none_iff] at not
    exact not usable
  have fromFirst : ∀ {repo info label}, param.set = Option.none → IsFirst Usable repos repo →
      loaded repo = some info → IsLatest (fun _ => True) info label →
      timeTargetEpoch param ≠ 0 ∧ more.head? = some (restoreBackupData label repo info) := by
    intro repo info label isNone first isLoaded latest
    rcases candidates with ⟨-, notUsable⟩ | ⟨other, data, rest, rfl, -, nonzero, first', latest'⟩
    · exact absurd first.mem.2 (notUsable isNone repo first.mem.1)
    · cases first.unique first'
      exact ⟨nonzero, congrArg some (latest'.unique ⟨info, label, isLoaded, latest, rfl⟩)⟩
  constructor
  · intro selects
    rcases epoch_cases param with ⟨set, isSet⟩ | ⟨isNone, noTarget, zero⟩ | ⟨isNone, isTarget⟩
    · rw [isSet] at selects
      cases selects with
      | requested first isLoaded =>
        have not := notDecides first.mem.1
        rw [isSet, decides_some_iff] at not
        exact absurd first.mem.2 not
    · rw [isNone, noTarget] at selects
      cases selects with
      | latest first isLoaded latest =>
        exact absurd first.mem.2 (unusable isNone zero _ first.mem.1)
    · rw [isNone, isTarget] at selects
      refine ⟨isNone, ?_⟩
      cases selects with
      | before first isLoaded latest =>
        by_cases zero : timeTargetEpoch param = 0
        · have has := first.mem.2
          rw [zero] at has
          exact absurd has (not_hasBefore_zero _)
        · exact absurd first.mem.2 (absent isNone zero _ first.mem.1)
      | noneBefore _ first isLoaded latest => exact fromFirst isNone first isLoaded latest
  · rintro ⟨isNone, nonzero, head⟩
    rcases candidates with ⟨rfl, -⟩ | ⟨repo, other, rest, rfl, -, -, first, latest⟩
    · cases head
    · cases head
      obtain ⟨info, label, isLoaded, isLatest, rfl⟩ := latest
      rcases epoch_cases param with ⟨set, isSet⟩ | ⟨-, -, zero⟩ | ⟨-, isTarget⟩
      · rw [isNone] at isSet
        cases isSet
      · exact absurd zero nonzero
      · rw [isNone, isTarget]
        exact .noneBefore (absent isNone nonzero) first isLoaded isLatest

theorem Right.of_some {data : RestoreBackupData}
    (selects : Selects (searched param repos) param.set (target param) data) :
    Right param repos (.ok data) := by
  refine ⟨fun other => ⟨?_, fun again => by rw [selects.unique again]⟩, ⟨?_, fun not => ?_⟩⟩
  · intro same
    cases same
    exact selects
  · rintro ⟨e, same, -⟩
    cases same
  · exact absurd selects (not _)

theorem Right.of_none {e : Error}
    (none : ∀ data, ¬ Selects (searched param repos) param.set (target param) data)
    (invalid : e.type = .backupSetInvalidError) : Right param repos (.error e) :=
  ⟨fun data => ⟨(fun same => by cases same), fun selects => absurd selects (none data)⟩,
    ⟨fun _ => none, fun _ => ⟨e, rfl, invalid⟩⟩⟩

/-- The wanted set is returned just when every repository before the end of the search can be
reached. -/
theorem restoreBackupSet_right_iff (param : Param) (repos : List Repo) :
    Right param repos (restoreBackupSet param repos) ↔
      ∀ repo ∈ (searched param repos).takeWhile
          (fun repo => !decides param.set (timeTargetEpoch param) repo),
        repo.storage = .ok () := by
  change _ ↔ Reached param.set (timeTargetEpoch param) (searched param repos)
  rw [restoreBackupSet]
  have ended := repoLoop_ended param.set (timeTargetEpoch param) (searched param repos) []
  generalize repoLoop param.set (timeTargetEpoch param) (searched param repos) [] = result at ended
  cases ended with
  | error reason unreached =>
    refine ⟨fun right => absurd right ?_, fun reached => absurd reached unreached⟩
    rintro ⟨isSet, invalid⟩
    obtain ⟨e, same, isInvalid⟩ := invalid.mpr fun data selects => by cases (isSet data).mpr selects
    cases same
    exact reason isInvalid
  | found reached first isFound =>
    exact ⟨fun _ => reached, fun _ => .of_some (selects_of_found first isFound)⟩
  | none reached none candidates =>
    refine ⟨fun _ => reached, fun _ => ?_⟩
    have wanted := selects_iff_of_none none candidates
    rw [List.nil_append]
    dsimp only
    split
    · rename_i set _ isSet
      refine .of_none (fun data selects => ?_) rfl
      have isNone := ((wanted data).mp selects).1
      rw [isSet] at isNone
      cases isNone
    · rename_i candidate rest isNone
      by_cases zero : timeTargetEpoch param = 0
      · rw [if_neg (not_not_intro zero)]
        exact .of_none (fun data selects => ((wanted data).mp selects).2.1 zero) rfl
      · rw [if_pos zero]
        exact .of_some ((wanted candidate).mpr ⟨isNone, zero, rfl⟩)
    · refine .of_none (fun data selects => ?_) rfl
      cases ((wanted data).mp selects).2.2

end Result

/-! ## A repository on a host that is down -/

def fullBackup : InfoBackupData := { backupLabel := "20161219-212741F".toList, backupTimestampStop := 100 }

def oneBackup : RepoInfo where
  backup := [fullBackup]
  cipherPass := none
  ordered := List.pairwise_singleton _ _
  stopped := by decide

def repoUp : Repo := ⟨1, .none, .ok (), .ok oneBackup, fun _ error => by cases error⟩

def repoDown : Repo where
  repoIdx := 0
  cipherType := .none
  storage := .error ⟨.fileReadError, "unable to read".toList⟩
  infoBackup := .error ⟨.fileReadError, "unable to read".toList⟩
  reason := by
    rintro e same
    cases same
    decide

def byDefault : Param := ⟨none, .default_, 0, none⟩

/-- The second repository has a backup, but the search ends with the error of the first. -/
theorem restoreBackupSet_host_down :
    Selects [repoDown, repoUp] byDefault.set (target byDefault)
        (restoreBackupData fullBackup.backupLabel repoUp oneBackup) ∧
      restoreBackupSet byDefault [repoDown, repoUp] =
        .error ⟨.fileReadError, "unable to read".toList⟩ := by
  refine ⟨.latest ⟨[repoDown], [], rfl, ⟨oneBackup, rfl, List.cons_ne_nil _ _⟩, ?_⟩ rfl
    ⟨fullBackup, List.mem_singleton_self _, trivial, rfl, ?_⟩, rfl⟩
  · intro repo mem usable
    rw [List.mem_singleton.mp mem] at usable
    obtain ⟨info, isLoaded, -⟩ := usable
    cases isLoaded
  · intro other mem _
    rw [List.mem_singleton.mp mem]

end RestoreSet
