import Mathlib.Data.List.Basic
import Mathlib.Tactic.Ring

/-!
# Numbers as groups of bits

Numbers of one width are written out as bits, the highest first. The same bits can be
cut into groups of another width.
-/

namespace BitGroups

/-- The low bits of a number, the highest of them first. -/
def bits : Nat → Nat → List Bool
  | 0, _ => []
  | width + 1, n => bits width (n / 2) ++ [decide (n % 2 = 1)]

/-- The bits of numbers of one width, one number after the other. -/
def bitsOf (width : Nat) (items : List Nat) : List Bool := items.flatMap (bits width)

@[simp]
theorem length_bits (width n : Nat) : (bits width n).length = width := by
  induction width generalizing n with
  | zero => rfl
  | succ width ih => rw [bits, List.length_append, ih, List.length_singleton]

@[simp]
theorem bitsOf_nil (width : Nat) : bitsOf width [] = [] := rfl

@[simp]
theorem bitsOf_cons (width n : Nat) (items : List Nat) :
    bitsOf width (n :: items) = bits width n ++ bitsOf width items := rfl

/-- A number that is put together of a high and a low part has the bits of both. -/
theorem bits_append {high low : Nat} (width lowWidth : Nat) (small : low < 2 ^ lowWidth) :
    bits (width + lowWidth) (high * 2 ^ lowWidth + low) = bits width high ++ bits lowWidth low := by
  induction lowWidth generalizing low with
  | zero =>
    rw [Nat.pow_zero, Nat.lt_one_iff] at small
    rw [small, Nat.pow_zero, Nat.mul_one, Nat.add_zero, Nat.add_zero, bits, List.append_nil]
  | succ lowWidth ih =>
    rw [Nat.pow_succ] at small
    have half : (high * 2 ^ (lowWidth + 1) + low) / 2 = high * 2 ^ lowWidth + low / 2 := by
      rw [Nat.pow_succ, ← Nat.mul_assoc]
      omega
    have last : (high * 2 ^ (lowWidth + 1) + low) % 2 = low % 2 := by
      rw [Nat.pow_succ, ← Nat.mul_assoc]
      omega
    rw [← Nat.add_assoc, bits, half, last, ih (by omega), bits, List.append_assoc]

theorem bits_inj {width a b : Nat} (smallA : a < 2 ^ width) (smallB : b < 2 ^ width)
    (same : bits width a = bits width b) : a = b := by
  induction width generalizing a b with
  | zero =>
    rw [Nat.pow_zero] at smallA smallB
    omega
  | succ width ih =>
    rw [Nat.pow_succ] at smallA smallB
    rw [bits, bits] at same
    obtain ⟨halves, lasts⟩ := List.append_inj' same rfl
    have half := ih (by omega) (by omega) halves
    have last := List.cons.inj lasts
    have parity : a % 2 = 1 ↔ b % 2 = 1 := decide_eq_decide.mp last.1
    omega

/-- The bits tell the numbers. -/
theorem bitsOf_inj {width : Nat} {first second : List Nat} (smallFirst : ∀ n ∈ first, n < 2 ^ width)
    (smallSecond : ∀ n ∈ second, n < 2 ^ width) (length : first.length = second.length)
    (same : bitsOf width first = bitsOf width second) : first = second := by
  induction first generalizing second with
  | nil => exact (List.length_eq_zero_iff.mp length.symm).symm
  | cons a first ih =>
    cases second with
    | nil => cases length
    | cons b second =>
      obtain ⟨smallA, smallFirst⟩ := List.forall_mem_cons.mp smallFirst
      obtain ⟨smallB, smallSecond⟩ := List.forall_mem_cons.mp smallSecond
      rw [bitsOf_cons, bitsOf_cons] at same
      obtain ⟨heads, tails⟩ := List.append_inj same (by rw [length_bits, length_bits])
      rw [bits_inj smallA smallB heads, ih smallFirst smallSecond (Nat.succ.inj length) tails]

end BitGroups
