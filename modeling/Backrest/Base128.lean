import Mathlib.Data.Nat.Bitwise
import Mathlib.Tactic.Ring

/-!
# Base-128 integers and zigzag

An unsigned integer is written seven bits a byte, low bits first, and the high
bit of a byte says that more bytes follow. A signed integer is first folded so
that small absolute values become small unsigned ones. The decoder takes its
bytes from any source that gives one byte at a time and may fail.
-/

namespace Base128

section Encode

/-- The bytes of a value, at most as many as the fuel allows. -/
def encode : Nat → Nat → List UInt8
  | 0, _ => []
  | fuel + 1, value =>
    if value ≥ 0x80 then (UInt8.ofNat value ||| 0x80) :: encode fuel (value >>> 7)
    else [UInt8.ofNat value]

/-- Add the bits of one more byte to the result, in an integer of 64 bits. -/
def join (result idx : Nat) (byte : UInt8) : Nat :=
  result ||| ((byte.toNat &&& 0x7f) <<< (7 * idx)) % 2 ^ 64

variable {S E : Type}

/-- Read bytes until one has its high bit clear; the fuel bounds their number. -/
def decode (next : S → Except E (UInt8 × S)) (unterminated : E) :
    Nat → Nat → Nat → S → Except E (Nat × S)
  | 0, _, _, _ => .error unterminated
  | fuel + 1, idx, result, source =>
    match next source with
    | .error e => .error e
    | .ok (byte, source) =>
      if byte < 0x80 then .ok (join result idx byte, source)
      else decode next unterminated fuel (idx + 1) (join result idx byte) source

/-- The source gives exactly these bytes, one after another. -/
def Gives (next : S → Except E (UInt8 × S)) : List UInt8 → S → S → Prop
  | [], before, after => before = after
  | byte :: bytes, before, after =>
    ∃ between, next before = .ok (byte, between) ∧ Gives next bytes between after

theorem toNat_ofNat_small {value : Nat} (h : value < 0x80) : (UInt8.ofNat value).toNat = value := by
  rw [UInt8.toNat_ofNat']
  omega

theorem toNat_more (value : Nat) : (UInt8.ofNat value ||| 0x80).toNat = value % 128 + 128 := by
  have low : ∀ n : Fin 256, n.val ||| 0x80 = n.val % 128 + 128 := by decide +kernel
  have byte : value % 2 ^ 8 ||| 0x80 = value % 2 ^ 8 % 128 + 128 := low ⟨value % 2 ^ 8, by omega⟩
  rw [UInt8.toNat_or, UInt8.toNat_ofNat']
  change value % 2 ^ 8 ||| 0x80 = _
  omega

theorem and_low {n : Nat} : n &&& 0x7f = n % 128 := Nat.and_two_pow_sub_one_eq_mod n 7

/-- The bits of a byte are added above those that are there. -/
theorem join_eq {result idx : Nat} {byte : UInt8} (below : result < 2 ^ (7 * idx))
    (fits : byte.toNat % 128 * 2 ^ (7 * idx) < 2 ^ 64) :
    join result idx byte = result + byte.toNat % 128 * 2 ^ (7 * idx) := by
  rw [join, and_low, Nat.shiftLeft_eq, Nat.mod_eq_of_lt fits, Nat.or_comm,
    Nat.mul_comm _ (2 ^ (7 * idx)), ← Nat.two_pow_add_eq_or_of_lt below, Nat.add_comm]

/-- What is there below the byte, the byte and what is still to come make up the value. -/
theorem decode_encode_from {next : S → Except E (UInt8 × S)} {unterminated : E} {fuel : Nat} :
    ∀ {idx result value : Nat} {before after : S}, value < 2 ^ (7 * fuel) → 0 < fuel →
    result < 2 ^ (7 * idx) → result + value * 2 ^ (7 * idx) < 2 ^ 64 →
    Gives next (encode fuel value) before after →
    decode next unterminated fuel idx result before = .ok (result + value * 2 ^ (7 * idx), after) := by
  induction fuel with
  | zero =>
    intro idx result value before after _ positive
    omega
  | succ fuel ih =>
    intro idx result value before after small _ below fits gives
    rw [encode] at gives
    by_cases more : value ≥ 0x80
    · rw [if_pos more, Gives] at gives
      obtain ⟨between, first, rest⟩ := gives
      have low := toNat_more value
      have wide : 2 ^ (7 * (idx + 1)) = 128 * 2 ^ (7 * idx) := by
        rw [Nat.mul_succ, Nat.pow_add, Nat.mul_comm]
      have split : value * 2 ^ (7 * idx)
          = value % 128 * 2 ^ (7 * idx) + value / 128 * (128 * 2 ^ (7 * idx)) := by
        calc value * 2 ^ (7 * idx)
            = (value % 128 + 128 * (value / 128)) * 2 ^ (7 * idx) := by rw [Nat.mod_add_div]
          _ = value % 128 * 2 ^ (7 * idx) + value / 128 * (128 * 2 ^ (7 * idx)) := by ring
      have part : value % 128 * 2 ^ (7 * idx) < 128 * 2 ^ (7 * idx) :=
        Nat.mul_lt_mul_of_pos_right (Nat.mod_lt _ (by decide)) (Nat.two_pow_pos _)
      have byte : (UInt8.ofNat value ||| 0x80).toNat % 128 = value % 128 := by omega
      have joined : join result idx (UInt8.ofNat value ||| 0x80)
          = result + value % 128 * 2 ^ (7 * idx) := by
        rw [join_eq below (by rw [byte]; omega), byte]
      have notLast : ¬(UInt8.ofNat value ||| 0x80) < 0x80 := by
        rw [UInt8.lt_iff_toNat_lt, low]
        change ¬_ < 128
        omega
      rw [decode, first]
      simp only [if_neg notLast, joined]
      have shifted : value >>> 7 = value / 128 := Nat.shiftRight_eq_div_pow value 7
      rw [shifted] at rest
      have less : value / 128 < 2 ^ (7 * fuel) := by
        rw [Nat.div_lt_iff_lt_mul (by decide)]
        rw [Nat.mul_succ, Nat.pow_add] at small
        exact small
      have positive : 0 < fuel := by
        rcases Nat.eq_zero_or_pos fuel with none | some
        · subst none
          simp only [Nat.mul_zero, Nat.pow_zero] at less
          omega
        · exact some
      have below' : result + value % 128 * 2 ^ (7 * idx) < 2 ^ (7 * (idx + 1)) := by
        have : result + value % 128 * 2 ^ (7 * idx) < (1 + value % 128) * 2 ^ (7 * idx) := by
          rw [Nat.add_mul, Nat.one_mul]
          omega
        have step : (1 + value % 128) * 2 ^ (7 * idx) ≤ 128 * 2 ^ (7 * idx) :=
          Nat.mul_le_mul_right _ (by omega)
        omega
      rw [ih less positive below' (by rw [wide]; omega) rest, wide]
      congr 2
      omega
    · rw [if_neg more, Gives] at gives
      obtain ⟨between, first, done⟩ := gives
      subst done
      have byte := toNat_ofNat_small (Nat.not_le.mp more)
      have last : UInt8.ofNat value < 0x80 := by
        rw [UInt8.lt_iff_toNat_lt, byte]
        change _ < 128
        omega
      have low : (UInt8.ofNat value).toNat % 128 = value := by omega
      rw [decode, first]
      simp only [if_pos last]
      rw [join_eq below (by rw [low]; omega), low]

/-- Ten bytes hold any value of 64 bits. -/
theorem decode_encode {next : S → Except E (UInt8 × S)} {unterminated : E} {value : Nat}
    {before after : S} (fits : value < 2 ^ 64) (gives : Gives next (encode 10 value) before after) :
    decode next unterminated 10 0 0 before = .ok (value, after) := by
  have read : decode next unterminated 10 0 0 before = .ok (0 + value * 2 ^ (7 * 0), after) :=
    decode_encode_from (by omega) (by decide) (by decide) (by omega) gives
  simpa using read

/-- A source that gets shorter with every byte is shorter after a number. -/
theorem decode_shorter {next : S → Except E (UInt8 × S)} {unterminated : E} (size : S → Nat)
    (shorter : ∀ before byte after, next before = .ok (byte, after) → size after < size before)
    {fuel : Nat} : ∀ {idx result value : Nat} {before after : S},
    decode next unterminated fuel idx result before = .ok (value, after) → size after < size before := by
  induction fuel with
  | zero =>
    intro idx result value before after read
    cases read
  | succ fuel ih =>
    intro idx result value before after read
    rw [decode] at read
    cases first : next before with
    | error e =>
      rw [first] at read
      cases read
    | ok pair =>
      obtain ⟨byte, between⟩ := pair
      have less := shorter before byte between first
      rw [first] at read
      dsimp only at read
      split at read
      · cases read
        exact less
      · exact Nat.lt_trans (ih read) less

end Encode
section ZigZag
variable {w : Nat}

/-- Fold the sign into the low bit. -/
def toZigZag (value : BitVec w) : BitVec w := (value <<< 1) ^^^ (value.sshiftRight (w - 1))

def fromZigZag (value : BitVec w) : BitVec w := (value >>> 1) ^^^ (~~~(value &&& 1#w) + 1#w)

theorem sshiftRight_sign (value : BitVec w) :
    value.sshiftRight (w - 1) = if value.msb then BitVec.allOnes w else 0#w := by
  ext i hi
  rw [BitVec.getElem_sshiftRight]
  by_cases first : i = 0
  · subst first
    rw [dif_pos (by omega), BitVec.msb_eq_getLsbD_last, BitVec.getLsbD_eq_getElem (by omega)]
    cases hb : value[w - 1 + 0] <;> simp_all
  · rw [dif_neg (by omega)]
    cases hb : value.msb <;> simp

theorem negate_low (value : BitVec w) :
    ~~~(value &&& 1#w) + 1#w = if value.getLsbD 0 then BitVec.allOnes w else 0#w := by
  rw [← BitVec.neg_eq_not_add, BitVec.and_one_eq_setWidth_ofBool_getLsbD]
  cases value.getLsbD 0 with
  | false => simp
  | true =>
    rw [if_pos rfl, ← BitVec.neg_one_eq_allOnes]
    congr 1
    apply BitVec.eq_of_toNat_eq
    simp

theorem fromZigZag_toZigZag (value : BitVec w) : fromZigZag (toZigZag value) = value := by
  rw [fromZigZag, negate_low, toZigZag, sshiftRight_sign]
  ext i hi
  have positive : 0 < w := by omega
  by_cases last : i + 1 < w
  · cases hm : value.msb <;> simp [Nat.add_comm 1 i, last, positive]
  · have top : value[i] = value.msb := by
      rw [BitVec.msb_eq_getLsbD_last, BitVec.getLsbD_eq_getElem (by omega)]
      congr 1
      omega
    rw [top]
    cases hm : value.msb <;> simp [Nat.add_comm 1 i, last, positive]

end ZigZag

end Base128
