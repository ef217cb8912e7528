import Backrest.Text

/-!
# Numbers as decimal text

Numbers are printed with leading zeros and read back, with the bounds of their digits.
-/

namespace Convert

open Text

/-- `cvtZToUInt64`: decimal digits, with a plus sign or without. -/
def cvtZToUInt64 (value : Str) : Except Error Nat :=
  let digits := match value with
    | '+' :: rest => rest
    | rest => rest
  if digits ≠ [] ∧ digits.all Char.isDigit = true ∧ cvtDigits digits < 2 ^ 64 then
    .ok (cvtDigits digits)
  else .error ⟨.formatError,
    "unable to convert base 10 string '".toList ++ value ++ "' to uint64".toList⟩

/-- `%0*d` -/
def fmtZero (width : Nat) (n : Int) : Str :=
  let digits := fmtUInt n.natAbs
  if n < 0 then '-' :: (List.replicate (width - 1 - digits.length) '0' ++ digits)
  else List.replicate (width - digits.length) '0' ++ digits

theorem cvtDigits_lt {digits : Str} (all : ∀ c ∈ digits, c.isDigit = true) :
    cvtDigits digits < 10 ^ digits.length := by
  induction digits with
  | nil => decide
  | cons c rest ih =>
    have low : c.toNat - '0'.toNat ≤ 9 := by
      have digit := all c List.mem_cons_self
      simp only [Char.isDigit, Bool.and_eq_true, decide_eq_true_eq, UInt32.le_iff_toNat_le] at digit
      have upper : c.toNat ≤ 57 := digit.2
      have zero : '0'.toNat = 48 := rfl
      omega
    have tail := ih fun d mem => all d (List.mem_cons_of_mem c mem)
    rw [cvtDigits] at tail ⊢
    rw [Nat.ofDigitChars_cons, Nat.ofDigitChars_eq_ofDigitChars_zero, List.length_cons, Nat.pow_succ,
      Nat.mul_zero, Nat.zero_add]
    have scaled := Nat.mul_le_mul_left (10 ^ rest.length) low
    omega

/-- Printed digits are padded to the width and read back as the number. -/
theorem fmtZero_cast {width n : Nat} (fits : n < 10 ^ width) (wide : 0 < width) :
    (fmtZero width n).length = width ∧ (∀ c ∈ fmtZero width n, c.isDigit = true) ∧
      cvtDigits (fmtZero width n) = n := by
  have short : (fmtUInt n).length ≤ width :=
    (Nat.length_toDigits_le_iff (by decide) wide).mpr fits
  have shape : fmtZero width n =
      List.replicate (width - (fmtUInt n).length) '0' ++ fmtUInt n := by
    rw [fmtZero, if_neg (by omega), Int.natAbs_natCast]
  rw [shape]
  refine ⟨?_, ?_, ?_⟩
  · rw [List.length_append, List.length_replicate]
    omega
  · intro c mem
    rcases List.mem_append.mp mem with zero | digit
    · rw [List.eq_of_mem_replicate zero]
      rfl
    · exact isDigit_of_mem_fmtUInt digit
  · rw [cvtDigits, Nat.ofDigitChars_append, Nat.ofDigitChars_replicate_zero, Nat.mul_zero]
    exact cvtDigits_fmtUInt n

theorem strSubN_part {parts : List Str} {part : Str} {k start size : Nat}
    (place : parts[k]? = some part) (before : ((parts.take k).map List.length).sum = start)
    (length : part.length = size) : strSubN parts.flatten start size = part := by
  obtain ⟨inside, rfl⟩ := List.getElem?_eq_some_iff.mp place
  have split : parts.flatten =
      (parts.take k).flatten ++ (parts[k] ++ (parts.drop (k + 1)).flatten) := by
    rw [← List.flatten_cons, ← List.flatten_append, List.getElem_cons_drop,
      List.take_append_drop]
  have size_front : (parts.take k).flatten.length = start := by
    rw [List.length_flatten, before]
  rw [split, strSubN, ← size_front, List.drop_left, ← length, List.take_left]

theorem cvtZToUInt64_ok_iff {value : Str} {c : Char} {rest : Str} (shape : value = c :: rest)
    (digit : c.isDigit = true) {n : Nat} : cvtZToUInt64 value = .ok n ↔
      (∀ d ∈ value, d.isDigit = true) ∧ cvtDigits value < 2 ^ 64 ∧ n = cvtDigits value := by
  subst shape
  have plus : ∀ tail, c :: rest = '+' :: tail → False := by
    rintro tail eq
    cases eq
    cases digit
  rw [cvtZToUInt64]
  split
  · rename_i valid
    rw [Except.ok.injEq]
    constructor
    · rintro rfl
      exact ⟨List.all_eq_true.mp valid.2.1, valid.2.2, rfl⟩
    · exact fun ⟨_, _, same⟩ => same.symm
  · rename_i invalid
    constructor
    · exact nofun
    · rintro ⟨all, fits, -⟩
      exact absurd ⟨List.cons_ne_nil c rest, List.all_eq_true.mpr all, fits⟩ invalid
  exact plus

end Convert
