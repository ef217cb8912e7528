import Mathlib.Data.List.GetD
import Backrest.Convert
import Backrest.Effects
import Backrest.RegExp

/-!
# Options that are sizes

A size is a number with a unit. The expression lets units repeat, and what follows decides
by the last two characters which one is meant. The product is taken modulo 2^64 and then
read as a signed number, before it is compared with the bounds.
-/

namespace SizeOption

open Text RegExp Convert Effects

section Code

def strExp (s : Str) : Exp Char := .each (fun c => .one (fun a => a = c)) s

def oneOf : List Str → Exp Char
  | [] => .never
  | s :: rest => .either (strExp s) (oneOf rest)

/-- The alternatives of the expression. -/
def qualifierList : List Str :=
  ["kb".toList, "k".toList, "mb".toList, "m".toList, "gb".toList, "g".toList, "tb".toList,
    "t".toList, "pb".toList, "p".toList, "b".toList]

/-- `^[0-9]+(kb|k|mb|m|gb|g|tb|t|pb|p|b)*$` -/
def sizeExp : Exp Char := .seq (.atLeastOne (.one Char.isDigit)) (.many (oneOf qualifierList))

def sizeQualifierToMultiplier (qualifier : Char) : Except Error Nat :=
  if qualifier = 'b' then .ok 1
  else if qualifier = 'k' then .ok 1024
  else if qualifier = 'm' then .ok (1024 * 1024)
  else if qualifier = 'g' then .ok (1024 * 1024 * 1024)
  else if qualifier = 't' then .ok (1024 * 1024 * 1024 * 1024)
  else if qualifier = 'p' then .ok (1024 * 1024 * 1024 * 1024 * 1024)
  else .error ⟨.assertError,
    '\'' :: qualifier :: "' is not a valid size qualifier".toList⟩

/-- The place of the letter that is the unit. -/
def chrPos (strArray : Str) : Option Nat :=
  let size := strArray.length
  if strArray.getD (size - 1) '\x00' = 'b' then
    -- If the previous character is a number, then the letter to look at is the last one
    if strArray.getD (size - 2) '\x00' ≤ '9' then some (size - 1) else some (size - 2)
  else if strArray.getD (size - 1) '\x00' > '9' then some (size - 1)
  else none

def uint64Mul (a b : Nat) : Nat := a * b % 2 ^ 64

def convertToByte (value : Str) : Except Error Nat :=
  let valueLower := value.map Char.toLower
  if regExpMatch sizeExp valueLower then
    match chrPos valueLower with
    | some pos => do
      let multiplier ← sizeQualifierToMultiplier (valueLower.getD pos '\x00')
      let number ← cvtZToUInt64 (valueLower.take pos)
      .ok (uint64Mul number multiplier)
    | none => do
      let number ← cvtZToUInt64 valueLower
      .ok (uint64Mul number 1)
  else .error ⟨.formatError, "value '".toList ++ value ++ "' is not valid".toList⟩

/-- The cast to `int64_t`. -/
def toInt64 (n : Nat) : Int := if n < 2 ^ 63 then n else n - 2 ^ 64

/-- What `configParse` does with the value of a size option that has bounds. -/
def sizeOption (optionName value : Str) (least greatest : Int) : Except Error Int :=
  match convertToByte value with
  | .error _ => .error ⟨.optionInvalidValueError, '\'' :: value ++ "' is not valid for '".toList ++
      optionName ++ "' option".toList⟩
  | .ok byte =>
    let valueInt64 := toInt64 byte
    if valueInt64 < least ∨ valueInt64 > greatest then
      .error ⟨.optionInvalidValueError, '\'' :: value ++ "' is out of range for '".toList ++
        optionName ++ "' option".toList⟩
    else .ok valueInt64

end Code

/-! ## What a size is -/

section Sizes

/-- A unit with its factor. -/
def unitList : List (Str × Nat) :=
  [([], 1), ("b".toList, 1), ("k".toList, 2 ^ 10), ("kb".toList, 2 ^ 10), ("m".toList, 2 ^ 20),
    ("mb".toList, 2 ^ 20), ("g".toList, 2 ^ 30), ("gb".toList, 2 ^ 30), ("t".toList, 2 ^ 40),
    ("tb".toList, 2 ^ 40), ("p".toList, 2 ^ 50), ("pb".toList, 2 ^ 50)]

/-- A decimal number followed by something, ignoring case. -/
def Splits (value digits unit : Str) : Prop :=
  value.map Char.toLower = digits ++ unit ∧ digits ≠ [] ∧ ∀ c ∈ digits, c.isDigit = true

def IsSize (value : Str) (size : Nat) : Prop :=
  ∃ digits unit factor, Splits value digits unit ∧ (unit, factor) ∈ unitList ∧
    size = cvtDigits digits * factor

/-- The units that the code lets through: also a second `b` after one. -/
def codeUnitList : List (Str × Nat) := unitList ++ [("bb".toList, 1)]

inductive UnitShape : Str → Nat → Prop where
  | empty : UnitShape [] 1
  | bytes : UnitShape ['b'] 1
  | letter {q : Char} {factor : Nat} (above : '9' < q) (other : q ≠ 'b')
      (known : sizeQualifierToMultiplier q = .ok factor) : UnitShape [q] factor
  | double {q : Char} {factor : Nat} (above : '9' < q)
      (known : sizeQualifierToMultiplier q = .ok factor) : UnitShape [q, 'b'] factor

variable {factor : Nat} {digits unit s : Str}

theorem unitShape_of_mem (mem : (unit, factor) ∈ codeUnitList) :
    UnitShape unit factor := by
  simp only [codeUnitList, unitList, List.cons_append, List.nil_append, List.mem_cons,
    Prod.mk.injEq, List.not_mem_nil, or_false] at mem
  rcases mem with ⟨rfl, rfl⟩ | ⟨rfl, rfl⟩ | ⟨rfl, rfl⟩ | ⟨rfl, rfl⟩ | ⟨rfl, rfl⟩ | ⟨rfl, rfl⟩ |
    ⟨rfl, rfl⟩ | ⟨rfl, rfl⟩ | ⟨rfl, rfl⟩ | ⟨rfl, rfl⟩ | ⟨rfl, rfl⟩ | ⟨rfl, rfl⟩ | ⟨rfl, rfl⟩
  · exact .empty
  · exact .bytes
  · exact .letter (by decide) (by decide) rfl
  · exact .double (by decide) rfl
  · exact .letter (by decide) (by decide) rfl
  · exact .double (by decide) rfl
  · exact .letter (by decide) (by decide) rfl
  · exact .double (by decide) rfl
  · exact .letter (by decide) (by decide) rfl
  · exact .double (by decide) rfl
  · exact .letter (by decide) (by decide) rfl
  · exact .double (by decide) rfl
  · exact .double (by decide) rfl

theorem multiplier_cases {q : Char} (known : sizeQualifierToMultiplier q = .ok factor) :
    (q, factor) ∈ [('b', 1), ('k', 2 ^ 10), ('m', 2 ^ 20), ('g', 2 ^ 30), ('t', 2 ^ 40),
      ('p', 2 ^ 50)] := by
  rw [sizeQualifierToMultiplier] at known
  split_ifs at known with b k m g t p
  · subst b
    cases known
    decide
  · subst k
    cases known
    decide
  · subst m
    cases known
    decide
  · subst g
    cases known
    decide
  · subst t
    cases known
    decide
  · subst p
    cases known
    decide

/-- The letter looked at makes a unit of the list, alone or before b. -/
theorem mem_of_multiplier {q : Char} (known : sizeQualifierToMultiplier q = .ok factor) :
    ([q], factor) ∈ codeUnitList ∧ ([q, 'b'], factor) ∈ codeUnitList := by
  have cases := multiplier_cases known
  simp only [List.mem_cons, Prod.mk.injEq, List.not_mem_nil, or_false] at cases
  rcases cases with ⟨rfl, rfl⟩ | ⟨rfl, rfl⟩ | ⟨rfl, rfl⟩ | ⟨rfl, rfl⟩ | ⟨rfl, rfl⟩ | ⟨rfl, rfl⟩
  · exact ⟨by decide, by decide⟩
  · exact ⟨by decide, by decide⟩
  · exact ⟨by decide, by decide⟩
  · exact ⟨by decide, by decide⟩
  · exact ⟨by decide, by decide⟩
  · exact ⟨by decide, by decide⟩

theorem digit_le {c : Char} (digit : c.isDigit = true) : c ≤ '9' ∧ c ≠ 'b' := by
  constructor
  · simp only [Char.isDigit, Bool.and_eq_true, decide_eq_true_eq] at digit
    exact digit.2
  · rintro rfl
    cases digit

theorem getD_last (some : digits ≠ []) (all : ∀ c ∈ digits, c.isDigit = true) :
    (digits.getD (digits.length - 1) '\x00').isDigit = true := by
  have positive := List.length_pos_iff.mpr some
  rw [List.getD_eq_getElem _ _ (by omega)]
  exact all _ (List.getElem_mem _)

/-- The place found is where the digits end, unless there is no unit. -/
theorem chrPos_append (some : digits ≠ []) (all : ∀ c ∈ digits, c.isDigit = true)
    (shape : UnitShape unit factor) :
    chrPos (digits ++ unit) = if unit = [] then none else Option.some digits.length := by
  have positive := List.length_pos_iff.mpr some
  obtain ⟨low, notB⟩ := digit_le (getD_last some all)
  cases shape with
  | empty =>
    rw [List.append_nil, if_pos rfl, chrPos]
    rw [if_neg notB, if_neg (not_lt_of_ge low)]
  | bytes =>
    have size : (digits ++ ['b']).length - 1 = digits.length := by simp
    have before : (digits ++ ['b']).length - 2 = digits.length - 1 := by simp
    rw [if_neg (by simp), chrPos]
    rw [size, before, List.getD_append_right _ _ _ _ le_rfl,
      List.getD_append _ _ _ _ (by omega), if_pos (by simp), if_pos low]
  | @letter q _ above other known =>
    have size : (digits ++ [q]).length - 1 = digits.length := by simp
    rw [if_neg (by simp), chrPos]
    rw [size, List.getD_append_right _ _ _ _ le_rfl, if_neg (by simpa using other),
      if_pos (by simpa using above)]
  | @double q _ above known =>
    have size : (digits ++ [q, 'b']).length - 1 = digits.length + 1 := by simp
    have before : (digits ++ [q, 'b']).length - 2 = digits.length := by simp
    rw [if_neg (by simp), chrPos]
    rw [size, before, List.getD_append_right _ _ _ _ (Nat.le_succ _),
      List.getD_append_right _ _ _ _ le_rfl, if_pos (by simp),
      if_neg (by simpa using above)]

theorem matches_strExp {text : Str} : Matches (strExp s) text ↔ text = s := by
  rw [strExp]
  induction s generalizing text with
  | nil => exact matches_empty
  | cons c rest ih =>
    rw [Exp.each, matches_seq]
    simp only [matches_one, decide_eq_true_eq, ih]
    constructor
    · rintro ⟨_, _, ⟨a, rfl, rfl⟩, rfl, rfl⟩
      rfl
    · rintro rfl
      exact ⟨[c], rest, ⟨c, rfl, rfl⟩, rfl, rfl⟩

theorem matches_oneOf {list : List Str} {text : Str} : Matches (oneOf list) text ↔ text ∈ list := by
  induction list with
  | nil => exact iff_of_false not_matches_never List.not_mem_nil
  | cons s rest ih => rw [oneOf, matches_either, matches_strExp, ih, List.mem_cons]

/-- What the expression accepts begins with a digit. -/
theorem sizeExp_first (matched : regExpMatch sizeExp s = true) :
    ∃ c rest, s = c :: rest ∧ c.isDigit = true := by
  obtain ⟨_, _, number, -, rfl⟩ := matches_seq.mp (regExpMatch_iff.mp matched)
  obtain ⟨_, _, first, -, rfl⟩ := matches_seq.mp number
  obtain ⟨c, digit, rfl⟩ := matches_one.mp first
  exact ⟨c, _, rfl, digit⟩

theorem matches_many_digits (all : ∀ c ∈ digits, c.isDigit = true) :
    Matches (.many (.one Char.isDigit)) digits := by
  induction digits with
  | nil => exact .none
  | cons c rest ih =>
    exact .more (.one (all c List.mem_cons_self))
      (ih fun d mem => all d (List.mem_cons_of_mem c mem))

theorem sizeExp_of_splits (some : digits ≠ []) (all : ∀ c ∈ digits, c.isDigit = true)
    (mem : (unit, factor) ∈ codeUnitList) :
    regExpMatch sizeExp (digits ++ unit) = true := by
  rw [regExpMatch_iff, sizeExp]
  refine .seq ?_ ?_
  · cases digits with
    | nil => exact absurd rfl some
    | cons c rest =>
      exact .seq (.one (all c List.mem_cons_self))
        (matches_many_digits fun d mem => all d (List.mem_cons_of_mem c mem))
  · have single : ∀ s ∈ qualifierList, Matches (.many (oneOf qualifierList)) s := by
      intro s known
      rw [← List.append_nil s]
      exact .more (matches_oneOf.mpr known) .none
    have units : ∀ u ∈ codeUnitList, u.1 = [] ∨ u.1 ∈ qualifierList ∨ u.1 = ['b', 'b'] := by
      decide
    rcases units _ mem with empty | known | twice
    · rw [show unit = [] from empty]
      exact .none
    · exact single _ known
    · rw [show unit = ['b'] ++ ['b'] from twice]
      exact .more (matches_oneOf.mpr (by decide)) (single _ (by decide))

/-- The letter looked at is the last one, or the one before a last b. -/
theorem chrPos_eq_some {pos : Nat} {c : Char} {rest : Str} (shape : s = c :: rest)
    (digit : c.isDigit = true) (found : chrPos s = some pos) :
    s = s.take pos ++ [s.getD pos '\x00'] ∨ s = s.take pos ++ [s.getD pos '\x00', 'b'] := by
  rcases List.eq_nil_or_concat s with rfl | ⟨init, z, last⟩
  · cases shape
  rw [List.concat_eq_append] at last
  have single : s.take init.length ++ [s.getD init.length '\x00'] = s := by
    rw [last, List.take_left, List.getD_append_right _ _ _ _ le_rfl]
    simp
  have size : s.length - 1 = init.length := by simp [last]
  rw [chrPos, size] at found
  split_ifs at found with isB low above
  · cases found
    exact .inl single.symm
  · cases found
    rcases List.eq_nil_or_concat init with rfl | ⟨front, y, before⟩
    · -- A text of one character is a digit, not the letter b.
      rw [shape] at isB
      have same : c = 'b' := isB
      rw [same] at digit
      cases digit
    · rw [List.concat_eq_append] at before
      have two : s.length - 2 = front.length := by simp [last, before]
      have z_eq : z = 'b' := by
        rw [last, List.getD_append_right _ _ _ _ le_rfl] at isB
        simpa using isB
      right
      rw [two, last, before, z_eq, List.append_assoc, List.take_left,
        List.getD_append_right _ _ _ _ le_rfl]
      simp
  · cases found
    exact .inl single.symm

theorem splits_of_convert {value : Str} {byte : Nat} (ok : convertToByte value = .ok byte) :
    ∃ digits unit factor, Splits value digits unit ∧ (unit, factor) ∈ codeUnitList ∧
      cvtDigits digits < 2 ^ 64 ∧ byte = uint64Mul (cvtDigits digits) factor := by
  rw [convertToByte] at ok
  split at ok
  case isFalse => cases ok
  rename_i matched
  obtain ⟨c, rest, shape, digit⟩ := sizeExp_first matched
  have number : ∀ {front tail : Str} {n : Nat}, value.map Char.toLower = front ++ tail →
      cvtZToUInt64 front = .ok n →
      front ≠ [] ∧ (∀ d ∈ front, d.isDigit = true) ∧ cvtDigits front < 2 ^ 64 ∧
        n = cvtDigits front := by
    intro front tail n split converted
    cases front with
    | nil => cases converted
    | cons d front =>
      have first : d.isDigit = true := by
        rw [shape] at split
        rw [← (List.cons.inj split).1]
        exact digit
      exact ⟨List.cons_ne_nil d front, (cvtZToUInt64_ok_iff rfl first).mp converted⟩
  split at ok
  · rename_i pos found
    obtain ⟨multiplier, known, ok⟩ := except_bind_ok ok
    obtain ⟨n, converted, ok⟩ := except_bind_ok ok
    cases ok
    rcases chrPos_eq_some shape digit found with split | split
    · obtain ⟨some, all, fits, rfl⟩ := number split converted
      exact ⟨_, _, multiplier, ⟨split, some, all⟩, (mem_of_multiplier known).1, fits, rfl⟩
    · obtain ⟨some, all, fits, rfl⟩ := number split converted
      exact ⟨_, _, multiplier, ⟨split, some, all⟩, (mem_of_multiplier known).2, fits, rfl⟩
  · obtain ⟨n, converted, ok⟩ := except_bind_ok ok
    cases ok
    have split : value.map Char.toLower = value.map Char.toLower ++ [] := (List.append_nil _).symm
    obtain ⟨some, all, fits, rfl⟩ := number split converted
    exact ⟨_, _, 1, ⟨split, some, all⟩, by decide, fits, rfl⟩

theorem convert_of_splits {value : Str} (splits : Splits value digits unit)
    (mem : (unit, factor) ∈ codeUnitList) (fits : cvtDigits digits < 2 ^ 64) :
    convertToByte value = .ok (uint64Mul (cvtDigits digits) factor) := by
  obtain ⟨lower, some, all⟩ := splits
  have number : cvtZToUInt64 digits = .ok (cvtDigits digits) := by
    cases digits with
    | nil => exact absurd rfl some
    | cons c rest =>
      exact (cvtZToUInt64_ok_iff rfl (all c List.mem_cons_self)).mpr ⟨all, fits, rfl⟩
  have shape := unitShape_of_mem mem
  rw [convertToByte, lower, if_pos (sizeExp_of_splits some all mem), chrPos_append some all shape]
  have pos : (digits ++ unit).take digits.length = digits := List.take_left
  have letter : ∀ q rest, unit = q :: rest → (digits ++ unit).getD digits.length '\x00' = q := by
    rintro q rest rfl
    rw [List.getD_append_right _ _ _ _ le_rfl]
    simp
  cases shape with
  | empty =>
    rw [if_pos rfl, List.append_nil]
    dsimp only
    rw [number]
    rfl
  | bytes =>
    rw [if_neg (by simp)]
    dsimp only
    rw [pos, letter 'b' [] rfl, number]
    rfl
  | @letter q _ above other known =>
    rw [if_neg (by simp)]
    dsimp only
    rw [pos, letter q [] rfl, number, known]
    rfl
  | @double q _ above known =>
    rw [if_neg (by simp)]
    dsimp only
    rw [pos, letter q ['b'] rfl, number, known]
    rfl

end Sizes

/-! ## When a size option gets what was written -/

section Claim

variable {optionName value : Str} {least greatest : Int}

/-- A value is accepted when it is a size within the bounds, and the size is what is stored. -/
def StoresSize (optionName value : Str) (least greatest : Int) : Prop :=
  ((∃ stored, sizeOption optionName value least greatest = .ok stored) ↔
      ∃ size : Nat, IsSize value size ∧ least ≤ size ∧ size ≤ greatest) ∧
    ∀ stored, sizeOption optionName value least greatest = .ok stored →
      ∃ size : Nat, IsSize value size ∧ stored = size

/-- What 64 bits leave of a product, as a signed number. -/
def wrapped (product : Nat) : Int := toInt64 (product % 2 ^ 64)

theorem sizeOption_ok_iff {stored : Int} :
    sizeOption optionName value least greatest = .ok stored ↔
      ∃ digits unit factor, Splits value digits unit ∧ (unit, factor) ∈ codeUnitList ∧
        cvtDigits digits < 2 ^ 64 ∧ stored = wrapped (cvtDigits digits * factor) ∧
        least ≤ stored ∧ stored ≤ greatest := by
  rw [sizeOption]
  constructor
  · intro ok
    split at ok
    · cases ok
    · rename_i byte converted
      dsimp only at ok
      split at ok
      · cases ok
      · rename_i inRange
        cases ok
        obtain ⟨digits, unit, factor, splits, mem, fits, rfl⟩ := splits_of_convert converted
        exact ⟨digits, unit, factor, splits, mem, fits, rfl, by omega, by omega⟩
  · rintro ⟨digits, unit, factor, splits, mem, fits, rfl, lower, upper⟩
    rw [convert_of_splits splits mem fits]
    have inRange : ¬ (wrapped (cvtDigits digits * factor) < least ∨
        wrapped (cvtDigits digits * factor) > greatest) := by omega
    exact if_neg inRange

theorem wrapped_of_lt {product : Nat} (small : product < 2 ^ 63) : wrapped product = product := by
  rw [wrapped, toInt64, Nat.mod_eq_of_lt (by omega), if_pos small]

theorem wrapped_lt (product : Nat) : wrapped product < 2 ^ 63 := by
  rw [wrapped, toInt64]
  split <;> omega

/-- Where the digits end is determined. -/
theorem splits_unique {digits unit digits' unit' : Str} {factor factor' : Nat}
    (splits : Splits value digits unit) (mem : (unit, factor) ∈ codeUnitList)
    (splits' : Splits value digits' unit') (mem' : (unit', factor') ∈ codeUnitList) :
    digits = digits' ∧ unit = unit' ∧ factor = factor' := by
  have letters : ∀ u ∈ codeUnitList, u.1.all (fun c => !c.isDigit) = true := by decide
  have noDigit : ∀ {u : Str} {f : Nat}, (u, f) ∈ codeUnitList → ∀ c ∈ u, c.isDigit = false := by
    intro u f mem c hc
    simpa using List.all_eq_true.mp (letters _ mem) c hc
  have digitsOf : ∀ {d u : Str} {f : Nat}, Splits value d u → (u, f) ∈ codeUnitList →
      (value.map Char.toLower).takeWhile Char.isDigit = d := by
    intro d u f splits mem
    rw [splits.1, List.takeWhile_append_of_pos splits.2.2]
    cases u with
    | nil => exact List.append_nil d
    | cons c u =>
      have stop := noDigit mem c List.mem_cons_self
      rw [List.takeWhile_cons, if_neg (by rw [stop]; decide), List.append_nil]
  have same : digits = digits' := (digitsOf splits mem).symm.trans (digitsOf splits' mem')
  subst same
  have unitSame : unit = unit' := List.append_cancel_left (splits.1.symm.trans splits'.1)
  subst unitSame
  have keys : ∀ u ∈ codeUnitList, ∀ v ∈ codeUnitList, u.1 = v.1 → u.2 = v.2 := by decide
  exact ⟨rfl, rfl, keys _ mem _ mem' rfl⟩

theorem mem_unitList {unit : Str} {factor : Nat} (mem : (unit, factor) ∈ codeUnitList)
    (other : unit ≠ "bb".toList) : (unit, factor) ∈ unitList := by
  rcases List.mem_append.mp mem with mem | twice
  · exact mem
  · cases List.mem_singleton.mp twice
    exact absurd rfl other

/-- The size is stored as written unless what 64 bits leave of a number of another form, or of a
product beyond the signed range, lies within the bounds. -/
theorem sizeOption_stores_iff (optionName value : Str) {least greatest : Int}
    (signed : greatest < 2 ^ 63) :
    StoresSize optionName value least greatest ↔
      ∀ digits unit factor, Splits value digits unit → (unit, factor) ∈ codeUnitList →
        cvtDigits digits < 2 ^ 64 → least ≤ wrapped (cvtDigits digits * factor) →
        wrapped (cvtDigits digits * factor) ≤ greatest →
        unit ≠ "bb".toList ∧ cvtDigits digits * factor < 2 ^ 63 := by
  constructor
  · rintro ⟨-, exact⟩ digits unit factor splits mem fits lower upper
    obtain ⟨size, ⟨digits', unit', factor', splits', mem', rfl⟩, same⟩ :=
      exact _ (sizeOption_ok_iff.mpr ⟨digits, unit, factor, splits, mem, fits, rfl, lower, upper⟩)
    obtain ⟨rfl, rfl, rfl⟩ := splits_unique splits mem splits' (List.mem_append_left _ mem')
    constructor
    · rintro rfl
      revert mem'
      simp [unitList]
    · have small := wrapped_lt (cvtDigits digits * factor)
      rw [same] at small
      exact_mod_cast small
  · intro only
    have stores : ∀ stored, sizeOption optionName value least greatest = .ok stored →
        ∃ size : Nat, IsSize value size ∧ stored = size ∧ least ≤ size ∧ size ≤ greatest := by
      intro stored ok
      obtain ⟨digits, unit, factor, splits, mem, fits, rfl, lower, upper⟩ := sizeOption_ok_iff.mp ok
      obtain ⟨other, small⟩ := only digits unit factor splits mem fits lower upper
      rw [wrapped_of_lt small] at lower upper ⊢
      exact ⟨_, ⟨digits, unit, factor, splits, mem_unitList mem other, rfl⟩, rfl, lower, upper⟩
    refine ⟨⟨?_, ?_⟩, ?_⟩
    · rintro ⟨stored, ok⟩
      obtain ⟨size, isSize, -, inRange⟩ := stores stored ok
      exact ⟨size, isSize, inRange⟩
    · rintro ⟨size, ⟨digits, unit, factor, splits, mem, rfl⟩, lower, upper⟩
      have small : cvtDigits digits * factor < 2 ^ 63 := by
        have bound := upper.trans_lt signed
        exact_mod_cast bound
      have factors : ∀ u ∈ unitList, 1 ≤ u.2 := by decide
      have number : cvtDigits digits ≤ cvtDigits digits * factor :=
        Nat.le_mul_of_pos_right _ (factors _ mem)
      refine ⟨_, sizeOption_ok_iff.mpr ⟨digits, unit, factor, splits, List.mem_append_left _ mem,
        by omega, rfl, ?_, ?_⟩⟩
      · rw [wrapped_of_lt small]
        exact lower
      · rw [wrapped_of_lt small]
        exact upper
    · intro stored ok
      obtain ⟨size, isSize, same, -⟩ := stores stored ok
      exact ⟨size, isSize, same⟩

/-- A megabyte within the bounds of `manifest-save-threshold` is stored as it is. -/
theorem sizeOption_stores_mebibyte :
    StoresSize "manifest-save-threshold".toList "1MB".toList 1 1099511627776 := by
  refine (sizeOption_stores_iff _ _ (by decide)).mpr ?_
  intro digits unit factor splits mem _ _ _
  have written : Splits "1MB".toList "1".toList "mb".toList := ⟨rfl, by decide, List.all_eq_true.mp rfl⟩
  obtain ⟨rfl, rfl, rfl⟩ := splits_unique splits mem written
    (show ("mb".toList, 2 ^ 20) ∈ codeUnitList by decide)
  exact ⟨by decide, by decide⟩

/-- More than sixteen exbibytes are stored as one gibibyte, and a doubled unit is accepted. -/
theorem sizeOption_wraps :
    sizeOption "manifest-save-threshold".toList "17179869185g".toList 1 1099511627776 =
      .ok 1073741824 ∧
    sizeOption "manifest-save-threshold".toList "1bb".toList 1 1099511627776 = .ok 1 ∧
    ¬ StoresSize "manifest-save-threshold".toList "17179869185g".toList 1 1099511627776 ∧
    ¬ StoresSize "manifest-save-threshold".toList "1bb".toList 1 1099511627776 := by
  have large : Splits "17179869185g".toList "17179869185".toList "g".toList :=
    ⟨rfl, by decide, List.all_eq_true.mp rfl⟩
  have twice : Splits "1bb".toList "1".toList "bb".toList := ⟨rfl, by decide, List.all_eq_true.mp rfl⟩
  have gibi : ("g".toList, 2 ^ 30) ∈ codeUnitList := by decide
  have doubled : ("bb".toList, 1) ∈ codeUnitList := by decide
  have okLarge : sizeOption "manifest-save-threshold".toList "17179869185g".toList 1 1099511627776 =
      .ok 1073741824 :=
    sizeOption_ok_iff.mpr ⟨_, _, _, large, gibi, by decide, by decide, by decide, by decide⟩
  have okTwice : sizeOption "manifest-save-threshold".toList "1bb".toList 1 1099511627776 = .ok 1 :=
    sizeOption_ok_iff.mpr ⟨_, _, _, twice, doubled, by decide, by decide, by decide, by decide⟩
  refine ⟨okLarge, okTwice, ?_, ?_⟩
  · rintro ⟨-, stores⟩
    obtain ⟨size, ⟨digits, unit, factor, splits, mem, rfl⟩, same⟩ := stores _ okLarge
    obtain ⟨rfl, rfl, rfl⟩ := splits_unique splits (List.mem_append_left _ mem) large gibi
    revert same
    decide
  · rintro ⟨-, stores⟩
    obtain ⟨size, ⟨digits, unit, factor, splits, mem, rfl⟩, -⟩ := stores _ okTwice
    obtain ⟨rfl, rfl, rfl⟩ := splits_unique splits (List.mem_append_left _ mem) twice doubled
    revert mem
    decide

end Claim

end SizeOption
