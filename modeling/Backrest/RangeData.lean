import Mathlib.Data.List.Basic

/-!
# The allowed range of an option

The bounds are 64-bit numbers, but the rule data is a list of pointers, so each bound is stored as
two words: what is above its low 32 bits and these bits, each narrowed to 32 bits and widened to
the size of a pointer with its sign.
-/

namespace RangeData

inductive PointerSize
  | bits32
  | bits64

/-- The bits of an `intptr_t`. -/
def PointerSize.width : PointerSize → Nat
  | .bits32 => 32
  | .bits64 => 64

variable (size : PointerSize)

/-- A word of the rule data from an `int64_t`. -/
def pointerWord (value : BitVec 64) : BitVec size.width := (value.setWidth 32).signExtend size.width

/-- The words of `PARSE_RULE_OPTION_OPTIONAL_ALLOW_RANGE`. -/
def parseRuleOptionOptionalAllowRange (rangeMin rangeMax : BitVec 64) : List (BitVec size.width) :=
  [pointerWord size (rangeMin.sshiftRight 32), pointerWord size (rangeMin &&& 0xFFFFFFFF),
    pointerWord size (rangeMax.sshiftRight 32), pointerWord size (rangeMax &&& 0xFFFFFFFF)]

/-- `PARSE_RULE_DATA_INT64`. -/
def parseRuleDataInt64 (list : List (BitVec size.width)) (index : Nat) : BitVec 64 :=
  (list.getD index 0).signExtend 64 <<< 32 ||| (list.getD (index + 1) 0).signExtend 64

/-- The check of the value of an option against its range. -/
def outOfRange (list : List (BitVec size.width)) (value : BitVec 64) : Bool :=
  value.slt (parseRuleDataInt64 size list 0) || (parseRuleDataInt64 size list 2).slt value

/-- The sign of the low word is not set, or all of the high word is. -/
def Plain (value : BitVec 64) : Prop :=
  value.getLsbD 31 = true → ∀ i, 32 ≤ i → i < 64 → value.getLsbD i = true

variable {size} {value : BitVec 64}

/-- A word is read back with its 32 bits, and the last of them in front. -/
theorem getLsbD_pointerWord {i : Nat} (inside : i < 64) :
    ((pointerWord size value).signExtend 64).getLsbD i =
      if i < 32 then value.getLsbD i else value.getLsbD 31 := by
  have widened : (pointerWord size value).signExtend 64 = (value.setWidth 32).signExtend 64 := by
    rw [pointerWord]
    cases size with
    | bits32 => simp [PointerSize.width]
    | bits64 => simp [PointerSize.width]
  rw [widened, BitVec.getLsbD_signExtend, BitVec.msb_setWidth]
  by_cases low : i < 32
  · rw [if_pos low, if_pos low, BitVec.getLsbD_setWidth]
    simp [inside, low]
  · rw [if_neg low, if_neg low]
    simp [inside]

/-- The words of a bound put together: the low word's sign covers the high word. -/
theorem getLsbD_join {i : Nat} (inside : i < 64) :
    ((pointerWord size (value.sshiftRight 32)).signExtend 64 <<< 32 |||
        (pointerWord size (value &&& 0xFFFFFFFF)).signExtend 64).getLsbD i =
      if i < 32 then value.getLsbD i else value.getLsbD i || value.getLsbD 31 := by
  have mask : ∀ j, j < 32 → (value &&& 0xFFFFFFFF).getLsbD j = value.getLsbD j := by
    intro j low
    have ones : (0xFFFFFFFF : BitVec 64) = BitVec.ofNat 64 (2 ^ 32 - 1) := by decide
    have inside : j < 64 := by omega
    rw [BitVec.getLsbD_and, ones, BitVec.getLsbD_ofNat, Nat.testBit_two_pow_sub_one]
    simp [low, inside]
  rw [BitVec.getLsbD_or, BitVec.getLsbD_shiftLeft, getLsbD_pointerWord inside, mask 31 (by decide)]
  by_cases low : i < 32
  · rw [if_pos low, if_pos low, mask i low]
    simp [low]
  · have behind : i - 32 < 32 := by omega
    have place : 32 + (i - 32) = i := by omega
    rw [if_neg low, if_neg low, getLsbD_pointerWord (by omega), if_pos behind,
      BitVec.getLsbD_sshiftRight, place]
    have outside : ¬ 64 ≤ i - 32 := by omega
    simp [inside, low, outside]

/-- A bound is read back exactly when the sign of its low word does not cover its high word. -/
theorem join_eq_iff :
    (pointerWord size (value.sshiftRight 32)).signExtend 64 <<< 32 |||
        (pointerWord size (value &&& 0xFFFFFFFF)).signExtend 64 = value ↔ Plain value := by
  constructor
  · intro same negative i above inside
    have bit := @getLsbD_join size value i inside
    rw [same, if_neg (by omega), negative, Bool.or_true] at bit
    exact bit
  · intro plain
    apply BitVec.eq_of_getLsbD_eq
    intro i inside
    rw [getLsbD_join inside]
    split
    next => rfl
    next above =>
      cases negative : value.getLsbD 31 with
      | false => exact Bool.or_false _
      | true => rw [plain negative i (by omega) inside, Bool.true_or]

theorem parseRuleDataInt64_zero {rangeMin rangeMax : BitVec 64} :
    parseRuleDataInt64 size (parseRuleOptionOptionalAllowRange size rangeMin rangeMax) 0 =
      rangeMin ↔ Plain rangeMin :=
  join_eq_iff

theorem parseRuleDataInt64_two {rangeMin rangeMax : BitVec 64} :
    parseRuleDataInt64 size (parseRuleOptionOptionalAllowRange size rangeMin rangeMax) 2 =
      rangeMax ↔ Plain rangeMax :=
  join_eq_iff

theorem outOfRange_eq {rangeMin rangeMax : BitVec 64} (plainMin : Plain rangeMin)
    (plainMax : Plain rangeMax) :
    outOfRange size (parseRuleOptionOptionalAllowRange size rangeMin rangeMax) value =
      (value.slt rangeMin || rangeMax.slt value) := by
  rw [outOfRange, parseRuleDataInt64_zero.mpr plainMin, parseRuleDataInt64_two.mpr plainMax]

/-- The bounds are read back exactly when both are plain. -/
theorem allowRange_iff (size : PointerSize) (rangeMin rangeMax : BitVec 64) :
    (parseRuleDataInt64 size (parseRuleOptionOptionalAllowRange size rangeMin rangeMax) 0 =
        rangeMin ∧
      parseRuleDataInt64 size (parseRuleOptionOptionalAllowRange size rangeMin rangeMax) 2 =
        rangeMax) ↔ Plain rangeMin ∧ Plain rangeMax :=
  and_congr parseRuleDataInt64_zero parseRuleDataInt64_two

/-- The largest 32-bit size is read back as -1. -/
theorem allowRange_fails :
    parseRuleDataInt64 .bits64 (parseRuleOptionOptionalAllowRange .bits64 0 0xFFFFFFFF) 2 = -1 ∧
      ¬ (parseRuleDataInt64 .bits64 (parseRuleOptionOptionalAllowRange .bits64 0 0xFFFFFFFF) 2 =
        0xFFFFFFFF) := by
  decide

end RangeData
