import Mathlib.Algebra.Ring.Nat
import Mathlib.Data.Char
import Backrest.LexOrder

/-!
# Numbers as hexadecimal text of a fixed width

The text of a fixed width is read back as the number, and it has the order of the numbers.
It is the text that is printed with leading zeros when the number fits.
-/

namespace HexText

open LexOrder

def hexChar (d : Nat) : Char := (Nat.digitChar d).toUpper

/-- The last digits of a number, the highest first. -/
def hexDigits : Nat → Nat → List Char
  | 0, _ => []
  | width + 1, n => hexDigits width (n / 16) ++ [hexChar (n % 16)]

@[simp]
theorem length_hexDigits (width n : Nat) : (hexDigits width n).length = width := by
  induction width generalizing n with
  | zero => rfl
  | succ width ih => rw [hexDigits, List.length_append, ih, List.length_singleton]

theorem hexChar_lt : ∀ d < 16, ∀ e < 16, d < e → hexChar d < hexChar e := by decide

theorem hexDigits_lt {width a b : Nat} (less : a < b) (fits : b < 16 ^ width) :
    hexDigits width a < hexDigits width b := by
  induction width generalizing a b with
  | zero => omega
  | succ width ih =>
    rw [Nat.pow_succ] at fits
    rw [hexDigits, hexDigits, append_lt_append_iff (by simp)]
    by_cases higher : a / 16 < b / 16
    · exact .inl (ih higher (by omega))
    · have same : a / 16 = b / 16 := by omega
      right
      refine ⟨by rw [same], ?_⟩
      rw [List.cons_lt_cons_iff]
      exact .inl (hexChar_lt _ (by omega) _ (by omega) (by omega))

theorem hexDigits_lt_iff {width a b : Nat} (fitsA : a < 16 ^ width) (fitsB : b < 16 ^ width) :
    hexDigits width a < hexDigits width b ↔ a < b := by
  constructor
  · intro less
    by_contra notLess
    rcases Nat.lt_or_ge b a with greater | atMost
    · exact lt_asymm less (hexDigits_lt greater fitsA)
    · rw [show a = b by omega] at less
      exact lt_irrefl _ less
  · exact fun less => hexDigits_lt less fitsB

theorem hexDigits_inj {width a b : Nat} (fitsA : a < 16 ^ width) (fitsB : b < 16 ^ width)
    (same : hexDigits width a = hexDigits width b) : a = b := by
  rcases Nat.lt_trichotomy a b with less | equal | greater
  · exact absurd (same ▸ hexDigits_lt less fitsB) (lt_irrefl _)
  · exact equal
  · exact absurd (same ▸ hexDigits_lt greater fitsA) (lt_irrefl _)

theorem hexDigits_zero (width : Nat) : hexDigits width 0 = List.replicate width '0' := by
  induction width with
  | zero => rfl
  | succ width ih =>
    rw [hexDigits, Nat.zero_div, ih, List.replicate_succ']
    rfl

/-- The shortest text with leading zeros. -/
theorem padded_eq {width n : Nat} (fits : n < 16 ^ (width + 1)) :
    List.replicate (width + 1 - ((Nat.toDigits 16 n).map Char.toUpper).length) '0' ++
      (Nat.toDigits 16 n).map Char.toUpper = hexDigits (width + 1) n := by
  induction width generalizing n with
  | zero =>
    rw [Nat.toDigits_of_lt_base (by simpa using fits)]
    have low : n % 16 = n := Nat.mod_eq_of_lt (by simpa using fits)
    simp [hexDigits, hexChar, low]
  | succ width ih =>
    by_cases small : n < 16
    · have low : n % 16 = n := Nat.mod_eq_of_lt small
      rw [Nat.toDigits_of_lt_base small, hexDigits, Nat.div_eq_of_lt small, hexDigits_zero, low]
      rfl
    · rw [Nat.toDigits_of_base_le (by decide) (by omega), hexDigits, ← ih (by rw [Nat.pow_succ] at fits; omega),
        List.map_append, List.length_append, List.append_assoc]
      congr 2
      simp

end HexText
