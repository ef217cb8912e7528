import Backrest.Text

/-!
# Backup types and backup labels

The expressions of `backupRegExp` are matched directly. A match can end in more
than one place when the differential or incremental part is optional, so the
matcher returns every rest of the string that it can leave.
-/

namespace BackupCommon

open Text

inductive BackupType where
  | full
  | diff
  | incr
  deriving DecidableEq, Repr

inductive CipherType where
  | none
  | aes256Cbc
  deriving DecidableEq

def isDigit (c : Char) : Bool := decide ('0' ≤ c) && decide (c ≤ '9')

/-- The class `[0-F]`. -/
def isWalChar (c : Char) : Bool := decide ('0' ≤ c) && decide (c ≤ 'F')

/-- Match `n` characters of a class and return the rest. -/
def matchN (cls : Char → Bool) : Nat → Str → Option Str
  | 0, s => some s
  | _ + 1, [] => none
  | n + 1, c :: s => if cls c then matchN cls n s else none

theorem matchN_some {cls : Char → Bool} {n : Nat} {s rest : Str}
    (h : matchN cls n s = some rest) :
    ∃ matched, s = matched ++ rest ∧ matched.length = n ∧ ∀ c ∈ matched, cls c = true := by
  induction n generalizing s with
  | zero =>
    cases h
    exact ⟨[], rfl, rfl, by simp⟩
  | succ n ih =>
    cases s with
    | nil => cases h
    | cons c s =>
      rw [matchN] at h
      split at h
      · rename_i first
        obtain ⟨matched, rfl, length, all⟩ := ih h
        refine ⟨c :: matched, rfl, by rw [List.length_cons, length], ?_⟩
        intro d hd
        rcases List.mem_cons.mp hd with rfl | hd
        · exact first
        · exact all d hd
      · cases h

theorem matchN_of_all {cls : Char → Bool} {n : Nat} {matched rest : Str}
    (length : matched.length = n) (all : ∀ c ∈ matched, cls c = true) :
    matchN cls n (matched ++ rest) = some rest := by
  induction n generalizing matched with
  | zero =>
    rw [List.length_eq_zero_iff.mp length]
    rfl
  | succ n ih =>
    cases matched with
    | nil => exact absurd length (by simp)
    | cons c matched =>
      rw [List.cons_append, matchN, if_pos (all c List.mem_cons_self)]
      exact ih (by simpa using length) (fun d mem => all d (List.mem_cons_of_mem _ mem))

def matchChar (c : Char) : Str → Option Str
  | [] => none
  | d :: s => if c = d then some s else none

theorem matchChar_some {c : Char} {s rest : Str} (h : matchChar c s = some rest) : s = c :: rest := by
  cases s with
  | nil => cases h
  | cons d s =>
    rw [matchChar] at h
    split at h
    · rename_i same
      cases h
      rw [same]
    · cases h

/-- `DATE_TIME_REGEX`: eight digits, a dash and six digits. -/
def matchDateTime (s : Str) : Option Str := do
  let s ← matchN isDigit 8 s
  let s ← matchChar '-' s
  matchN isDigit 6 s

structure BackupRegExpParam where
  full : Bool := false
  differential : Bool := false
  incremental : Bool := false

/-- The differential or incremental part of a label. -/
def matchDependent (param : BackupRegExpParam) (s : Str) : Option Str := do
  let s ← matchChar '_' s
  let s ← matchDateTime s
  match s with
  | [] => none
  | c :: s =>
    if param.differential && param.incremental then
      if c = 'D' || c = 'I' then some s else none
    else if param.differential then
      if c = 'D' then some s else none
    else
      if c = 'I' then some s else none

/-- `backupRegExp` without its end anchor: the rests it can leave. -/
def backupRegExpRest (param : BackupRegExpParam) (s : Str) : List Str :=
  match matchDateTime s >>= matchChar 'F' with
  | none => []
  | some rest =>
    if param.differential || param.incremental then
      if param.full then (matchDependent param rest).toList ++ [rest]
      else (matchDependent param rest).toList
    else [rest]

/-- `regExpMatch` with the anchored expression of `backupRegExp`. -/
def backupRegExp (param : BackupRegExpParam) (s : Str) : Bool :=
  decide ([] ∈ backupRegExpRest param s)

/-- The three label filters the commands use. -/
def labelFull : Str → Bool := backupRegExp { full := true }

def labelFullDiff : Str → Bool := backupRegExp { full := true, differential := true }

def labelAny : Str → Bool :=
  backupRegExp { full := true, differential := true, incremental := true }

theorem backupRegExp_of_labelFull {param : BackupRegExpParam} (full : param.full = true) {s : Str}
    (h : labelFull s = true) : backupRegExp param s = true := by
  rw [labelFull, backupRegExp, decide_eq_true_eq, backupRegExpRest] at h
  rw [backupRegExp, decide_eq_true_eq, backupRegExpRest]
  cases hm : matchDateTime s >>= matchChar 'F' with
  | none => rw [hm] at h; exact h
  | some rest =>
    rw [hm] at h
    have nil : [] = rest := List.mem_singleton.mp h
    subst nil
    by_cases hd : (param.differential || param.incremental) = true
    · simp [hd, full]
    · simp [hd]

example : labelFull "20200101-000000F".toList = true := by decide

example : labelFullDiff "20200101-000000F_20200102-000000I".toList = false := by decide

/-- `backupLabelFormat`, given the text of the timestamp. -/
def backupLabelFormat (type : BackupType) (backupLabelPrior : Option Str) (time : Str) : Str :=
  match type with
  | .full => time ++ ['F']
  | .diff => strSubN (backupLabelPrior.getD []) 0 16 ++ '_' :: time ++ ['D']
  | .incr => strSubN (backupLabelPrior.getD []) 0 16 ++ '_' :: time ++ ['I']

end BackupCommon
