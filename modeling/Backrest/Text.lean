import Mathlib.Data.Char
import Mathlib.Algebra.GroupWithZero.Nat
import Mathlib.Algebra.Ring.Int.Defs
import Mathlib.Algebra.Ring.Nat
import Mathlib.Data.List.Infix
import Backrest.LexOrder
import Backrest.AntiMerge

/-!
# Strings, string lists and errors

A string is the list of its bytes, each written as the character of that code;
the end of the list stands for the terminator. `strCmp` is `strcmp`, which is
the lexicographic order of the list, so it is written with the order itself.
-/

namespace Text

open LexOrder

abbrev Str := List Char

instance : LawfulBEq Str := inferInstance

/-- `strSubN`: at most `size` bytes from `start`. -/
def strSubN (this : Str) (start size : Nat) : Str := (this.drop start).take size

def strBeginsWith (this beginsWith : Str) : Bool := beginsWith.isPrefixOf this

/-- `strLstNewSplitZ` on a one byte delimiter. -/
def strLstNewSplit (delimiter : Char) : Str → List Str
  | [] => [[]]
  | c :: rest =>
    if c = delimiter then [] :: strLstNewSplit delimiter rest
    else match strLstNewSplit delimiter rest with
      | [] => [[c]]
      | item :: items => (c :: item) :: items

variable {delimiter : Char} {s : Str} {this : List Str}

theorem strLstNewSplit_ne_nil : strLstNewSplit delimiter s ≠ [] := by
  cases s with
  | nil => simp [strLstNewSplit]
  | cons c rest =>
    rw [strLstNewSplit]
    split
    · simp
    · split <;> simp

theorem strLstNewSplit_of_not_mem (h : delimiter ∉ s) :
    strLstNewSplit delimiter s = [s] := by
  induction s with
  | nil => rfl
  | cons c rest ih =>
    have hc : c ≠ delimiter := fun same => h (same ▸ List.mem_cons_self)
    rw [strLstNewSplit, if_neg hc, ih (fun mem => h (List.mem_cons_of_mem c mem))]

theorem strLstNewSplit_append {t : Str} (h : delimiter ∉ s) :
    strLstNewSplit delimiter (s ++ delimiter :: t) = s :: strLstNewSplit delimiter t := by
  induction s with
  | nil => rw [List.nil_append, strLstNewSplit, if_pos rfl]
  | cons c rest ih =>
    have hc : c ≠ delimiter := fun same => h (same ▸ List.mem_cons_self)
    rw [List.cons_append, strLstNewSplit, if_neg hc, ih (fun mem => h (List.mem_cons_of_mem c mem))]

/-- A part that is not the last is followed by a delimiter. -/
theorem strLstNewSplit_eq_cons {first next : Str} {rest : List Str}
    (split : strLstNewSplit delimiter s = first :: next :: rest) :
    delimiter ∉ first ∧ ∃ t, s = first ++ delimiter :: t ∧ strLstNewSplit delimiter t = next :: rest := by
  induction s generalizing first with
  | nil => simp [strLstNewSplit] at split
  | cons c s ih =>
    rw [strLstNewSplit] at split
    by_cases isDelimiter : c = delimiter
    · rw [if_pos isDelimiter] at split
      obtain ⟨rfl, later⟩ := List.cons.inj split
      exact ⟨List.not_mem_nil, s, by rw [isDelimiter]; rfl, later⟩
    · rw [if_neg isDelimiter] at split
      cases inner : strLstNewSplit delimiter s with
      | nil => exact absurd inner strLstNewSplit_ne_nil
      | cons item items =>
        rw [inner] at split
        obtain ⟨rfl, rfl⟩ := List.cons.inj split
        obtain ⟨absent, t, rfl, later⟩ := ih inner
        refine ⟨?_, t, rfl, later⟩
        rw [List.mem_cons, not_or]
        exact ⟨fun same => isDelimiter same.symm, absent⟩

/-- The text before the first delimiter is determined. -/
theorem append_delimiter_inj {a b t : Str} (ha : delimiter ∉ a) (hb : delimiter ∉ b)
    (same : a ++ delimiter :: s = b ++ delimiter :: t) : a = b ∧ s = t := by
  induction a generalizing b with
  | nil =>
    cases b with
    | nil => exact ⟨rfl, (List.cons.inj same).2⟩
    | cons c b => exact absurd ((List.cons.inj same).1 ▸ List.mem_cons_self) hb
  | cons c a ih =>
    cases b with
    | nil => exact absurd ((List.cons.inj same).1 ▸ List.mem_cons_self) ha
    | cons d b =>
      obtain ⟨rfl, later⟩ := List.cons.inj same
      obtain ⟨rfl, rfl⟩ := ih (fun mem => ha (List.mem_cons_of_mem _ mem))
        (fun mem => hb (List.mem_cons_of_mem _ mem)) later
      exact ⟨rfl, rfl⟩

/-- A delimiter stands between parts. -/
theorem strLstNewSplit_concat (s t : Str) :
    strLstNewSplit delimiter (s ++ delimiter :: t) =
      strLstNewSplit delimiter s ++ strLstNewSplit delimiter t := by
  induction s with
  | nil => simp [strLstNewSplit]
  | cons c s ih =>
    rw [List.cons_append, strLstNewSplit, strLstNewSplit, ih]
    split
    · rfl
    · cases split : strLstNewSplit delimiter s with
      | nil => exact absurd split strLstNewSplit_ne_nil
      | cons item items => rfl

theorem prefix_head_split {first : Str} {rest : List Str}
    (split : strLstNewSplit delimiter s = first :: rest) :
    first <+: s ∧ ∀ start, delimiter ∉ start → start <+: s → start <+: first := by
  induction s generalizing first rest with
  | nil =>
    cases split
    exact ⟨List.prefix_rfl, fun _ _ isPrefix => isPrefix⟩
  | cons c s ih =>
    rw [strLstNewSplit] at split
    by_cases isDelimiter : c = delimiter
    · rw [if_pos isDelimiter] at split
      cases split
      refine ⟨List.nil_prefix, ?_⟩
      intro start absent isPrefix
      cases start with
      | nil => exact List.prefix_rfl
      | cons d start =>
        rw [List.cons_prefix_cons] at isPrefix
        exact absurd (isPrefix.1.trans isDelimiter ▸ List.mem_cons_self) absent
    · rw [if_neg isDelimiter] at split
      cases inner : strLstNewSplit delimiter s with
      | nil => exact absurd inner strLstNewSplit_ne_nil
      | cons item items =>
        rw [inner] at split
        cases split
        obtain ⟨isPrefix, holds⟩ := ih inner
        refine ⟨List.cons_prefix_cons.mpr ⟨rfl, isPrefix⟩, ?_⟩
        intro start absent startPrefix
        cases start with
        | nil => exact List.nil_prefix
        | cons d start =>
          rw [List.cons_prefix_cons] at startPrefix ⊢
          exact ⟨startPrefix.1, holds start (fun mem => absent (List.mem_cons_of_mem _ mem))
            startPrefix.2⟩

inductive SortOrder where
  | asc
  | desc
  deriving DecidableEq

/-- `strLstSort`. Strings that compare equal are equal, so the sort is determined. -/
def strLstSort (this : List Str) : SortOrder → List Str
  | .asc => sortBy id this
  | .desc => (sortBy id this).reverse

theorem mem_strLstSort {order : SortOrder} :
    s ∈ strLstSort this order ↔ s ∈ this := by
  cases order with
  | asc => exact mem_sortBy
  | desc => exact List.mem_reverse.trans mem_sortBy

theorem strLstSort_perm (this : List Str) (order : SortOrder) :
    (strLstSort this order).Perm this := by
  cases order with
  | asc => exact sortBy_perm id this
  | desc => exact (List.reverse_perm _).trans (sortBy_perm id this)

theorem strLstSort_asc_sorted (this : List Str) : (strLstSort this .asc).Pairwise (· ≤ ·) :=
  sortBy_pairwise id this

theorem strLstSort_congr {a b : List Str} (ha : a.Nodup) (hb : b.Nodup)
    (same : ∀ s, s ∈ a ↔ s ∈ b) (order : SortOrder) : strLstSort a order = strLstSort b order := by
  have perm : (strLstSort a .asc).Perm (strLstSort b .asc) :=
    ((strLstSort_perm a .asc).trans ((List.perm_ext_iff_of_nodup ha hb).mpr same)).trans
      (strLstSort_perm b .asc).symm
  have asc : strLstSort a .asc = strLstSort b .asc :=
    perm.eq_of_pairwise (fun _ _ _ _ => le_antisymm) (strLstSort_asc_sorted a)
      (strLstSort_asc_sorted b)
  cases order with
  | asc => exact asc
  | desc => exact congrArg List.reverse asc

theorem strLstSort_asc_eq_self (sorted : this.Pairwise (· ≤ ·)) :
    strLstSort this .asc = this :=
  sortBy_eq_self sorted

/-- A filter and an ascending sort can change places. -/
theorem strLstSort_filter (this : List Str) (keep : Str → Bool) :
    (strLstSort this .asc).filter keep = strLstSort (this.filter keep) .asc := by
  have perm : ((strLstSort this .asc).filter keep).Perm (strLstSort (this.filter keep) .asc) :=
    ((strLstSort_perm this .asc).filter keep).trans (strLstSort_perm _ .asc).symm
  exact perm.eq_of_pairwise (fun _ _ _ _ => le_antisymm)
    ((strLstSort_asc_sorted this).filter keep) (strLstSort_asc_sorted _)

/-- `strLstAddIfMissing`. -/
def strLstAddIfMissing (this : List Str) (s : Str) : List Str :=
  if s ∈ this then this else this ++ [s]

theorem mem_strLstAddIfMissing {r : Str} :
    r ∈ strLstAddIfMissing this s ↔ r ∈ this ∨ r = s := by
  rw [strLstAddIfMissing]
  split
  · rename_i h
    constructor
    · exact Or.inl
    · rintro (old | rfl)
      · exact old
      · exact h
  · rw [List.mem_append, List.mem_singleton]

theorem mem_foldl_strLstAddIfMissing {items : List Str} {r : Str} :
    r ∈ items.foldl strLstAddIfMissing this ↔ r ∈ this ∨ r ∈ items := by
  induction items generalizing this with
  | nil => simp
  | cons s rest ih => rw [List.foldl_cons, ih, mem_strLstAddIfMissing, List.mem_cons, or_assoc]

theorem nodup_foldl_strLstAddIfMissing {items : List Str} (nodup : this.Nodup) :
    (items.foldl strLstAddIfMissing this).Nodup := by
  induction items generalizing this with
  | nil => exact nodup
  | cons s rest ih =>
    rw [List.foldl_cons]
    apply ih
    rw [strLstAddIfMissing]
    split
    · exact nodup
    · rename_i absent
      exact nodup.append (List.nodup_singleton s) (List.disjoint_singleton.mpr absent)

/-- `strLstMergeAnti`. -/
def strLstMergeAnti (this anti : List Str) : List Str := AntiMerge.mergeAnti this anti

/-- `strLstJoin`. -/
def strLstJoin (this : List Str) (separator : Str) : Str := List.intercalate separator this

theorem strLstNewSplit_eq_splitOn (delimiter : Char) (s : Str) :
    strLstNewSplit delimiter s = s.splitOn delimiter := by
  induction s with
  | nil => rfl
  | cons c s ih =>
    rw [strLstNewSplit, List.splitOn_cons_eq_if_modifyHead, ih]
    by_cases same : c = delimiter
    · simp [same]
    · rw [if_neg same, if_neg (by simpa using same)]
      cases lines : s.splitOn delimiter with
      | nil => exact absurd lines (List.splitOn_ne_nil delimiter s)
      | cons item items => rfl

theorem strLstJoin_split (delimiter : Char) (s : Str) :
    strLstJoin (strLstNewSplit delimiter s) [delimiter] = s := by
  rw [strLstJoin, strLstNewSplit_eq_splitOn]
  exact List.intercalate_splitOn delimiter

theorem strLstNewSplit_join {parts : List Str} (nonempty : parts ≠ [])
    (absent : ∀ c ∈ parts, delimiter ∉ c) :
    strLstNewSplit delimiter (strLstJoin parts [delimiter]) = parts := by
  rw [strLstNewSplit_eq_splitOn, strLstJoin]
  exact List.splitOn_intercalate delimiter absent nonempty

theorem strLstJoin_cons (delimiter : Char) (part : Str) (parts : List Str) :
    strLstJoin (part :: parts) [delimiter] = part ++ parts.flatMap (delimiter :: ·) := by
  induction parts generalizing part with
  | nil => simp [strLstJoin, List.intercalate]
  | cons next parts ih =>
    have later := ih next
    rw [strLstJoin, List.intercalate] at later ⊢
    simp only [List.intersperse, List.flatten_cons, later]
    rfl

/-- The digits of an unsigned number, as `%u` prints it. -/
def fmtUInt (n : Nat) : Str := Nat.toDigits 10 n

/-- `cvtZToUInt` on a string of digits. -/
def cvtDigits (s : Str) : Nat := Nat.ofDigitChars 10 s 0

@[simp]
theorem cvtDigits_fmtUInt (n : Nat) : cvtDigits (fmtUInt n) = n := Nat.ofDigitChars_ten_toDigits

theorem isDigit_of_mem_fmtUInt {n : Nat} {c : Char} (h : c ∈ fmtUInt n) : c.isDigit = true :=
  Nat.isDigit_of_mem_toDigits (by decide) (by decide) h

/-- The error types the modelled functions throw. -/
inductive ErrorType where
  | archiveDuplicateError
  | archiveMismatchError
  | assertError
  | backupSetInvalidError
  | checksumError
  | commandError
  | cryptoError
  | dbInvalidError
  | dbMissingError
  | fileCloseError
  | fileExistsError
  | fileInvalidError
  | fileMissingError
  | fileMoveError
  | fileOpenError
  | fileReadError
  | fileRemoveError
  | fileWriteError
  | formatError
  | jsonFormatError
  | linkDestinationError
  | linkMapError
  | optionInvalidError
  | optionInvalidValueError
  | optionRequiredError
  | pathCreateError
  | pathMissingError
  | pathNotEmptyError
  | pathOpenError
  | repoInvalidError
  | tablespaceMapError
  deriving DecidableEq, Repr

structure Error where
  type : ErrorType
  message : Str
  deriving DecidableEq

/-- The error of `lstGet` on an index past the end. -/
def lstGetError (listIdx listSize : Nat) : Error :=
  ⟨.assertError, "cannot get index ".toList ++ fmtUInt listIdx ++ " from list with ".toList ++
    fmtUInt listSize ++ " value(s)".toList⟩

def lstGet {α : Type} (this : List α) (listIdx : Nat) : Except Error α :=
  match this[listIdx]? with
  | some item => .ok item
  | none => .error (lstGetError listIdx this.length)

end Text
