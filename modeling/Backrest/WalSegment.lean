import Backrest.ArchiveAsync
import Backrest.HexText

/-!
# Names of WAL segments

The name of a segment is the text of three numbers. The next name is computed from the
numbers that are read back from the text, so it can be followed on the numbers alone, and
names of one timeline are ordered as their numbers.
-/

namespace WalSegment

open Text LexOrder HexText ArchiveAsync

def walName (timeline major minor : Nat) : Str :=
  fmtHex8 timeline ++ fmtHex8 major ++ fmtHex8 minor

/-- `walSegmentNext` on the numbers of a name. -/
def partsNext (walSegmentSize pgVersion major minor : Nat) : Nat × Nat :=
  let minor := (minor + 1) % 2 ^ 32
  let (major, minor) :=
    if minor > (2 ^ 32 - 1) / walSegmentSize then ((major + 1) % 2 ^ 32, 0) else (major, minor)
  if minor = 0xFF ∧ pgVersion < 90300 then ((major + 1) % 2 ^ 32, 0) else (major, minor)

theorem fmtHex8_eq {n : Nat} (fits : n < 2 ^ 32) : fmtHex8 n = hexDigits 8 n :=
  @padded_eq 7 n (by omega)

theorem hexDigit_hexChar : ∀ d < 16, hexDigit (hexChar d) = some d := by decide

theorem strtolHex_append {s t : Str} (digits : ∀ c ∈ s, (hexDigit c).isSome = true) (value : Nat) :
    strtolHex (s ++ t) value = strtolHex t (strtolHex s value) := by
  induction s generalizing value with
  | nil => rfl
  | cons c s ih =>
    obtain ⟨digit, isDigit⟩ := Option.isSome_iff_exists.mp (digits c List.mem_cons_self)
    rw [List.cons_append, strtolHex, strtolHex, isDigit]
    exact ih (fun d mem => digits d (List.mem_cons_of_mem _ mem)) _

theorem hexDigits_isSome (width n : Nat) : ∀ c ∈ hexDigits width n, (hexDigit c).isSome = true := by
  induction width generalizing n with
  | zero => exact fun _ mem => by cases mem
  | succ width ih =>
    intro c mem
    rcases List.mem_append.mp mem with mem | mem
    · exact ih _ c mem
    · rw [List.mem_singleton.mp mem, hexDigit_hexChar _ (Nat.mod_lt _ (by decide))]
      rfl

theorem strtolHex_hexDigits {width n : Nat} (fits : n < 16 ^ width) (value : Nat) :
    strtolHex (hexDigits width n) value = value * 16 ^ width + n := by
  induction width generalizing n with
  | zero =>
    rw [hexDigits, strtolHex]
    omega
  | succ width ih =>
    rw [Nat.pow_succ] at fits
    rw [hexDigits, strtolHex_append (hexDigits_isSome _ _), ih (by omega), strtolHex,
      hexDigit_hexChar _ (Nat.mod_lt _ (by decide))]
    simp only [strtolHex]
    rw [Nat.pow_succ, ← Nat.mul_assoc]
    omega

theorem strtolHex_fmtHex8 {n : Nat} (fits : n < 2 ^ 32) : strtolHex (fmtHex8 n) 0 = n := by
  rw [fmtHex8_eq fits, strtolHex_hexDigits (by omega)]
  omega

theorem length_fmtHex8 {n : Nat} (fits : n < 2 ^ 32) : (fmtHex8 n).length = 8 := by
  rw [fmtHex8_eq fits, length_hexDigits]

section Names

variable {timeline major minor : Nat} (timelineFits : timeline < 2 ^ 32) (majorFits : major < 2 ^ 32)
  (minorFits : minor < 2 ^ 32)

include timelineFits

theorem walName_timeline : strSubN (walName timeline major minor) 0 8 = fmtHex8 timeline := by
  rw [strSubN, walName, List.drop_zero, List.append_assoc, List.take_left' (length_fmtHex8 timelineFits)]

include majorFits

theorem walName_major : strSubN (walName timeline major minor) 8 8 = fmtHex8 major := by
  rw [strSubN, walName, List.append_assoc, List.drop_left' (length_fmtHex8 timelineFits),
    List.take_left' (length_fmtHex8 majorFits)]

include minorFits

theorem walName_minor : strSubN (walName timeline major minor) 16 8 = fmtHex8 minor := by
  have front : (fmtHex8 timeline ++ fmtHex8 major).length = 16 := by
    rw [List.length_append, length_fmtHex8 timelineFits, length_fmtHex8 majorFits]
  rw [strSubN, walName, List.drop_left' front,
    List.take_of_length_le (length_fmtHex8 minorFits).le]

theorem length_walName : (walName timeline major minor).length = 24 := by
  rw [walName, List.length_append, List.length_append, length_fmtHex8 timelineFits,
    length_fmtHex8 majorFits, length_fmtHex8 minorFits]

theorem walSegmentNext_walName (walSegmentSize pgVersion : Nat) :
    walSegmentNext (walName timeline major minor) walSegmentSize pgVersion =
      walName timeline (partsNext walSegmentSize pgVersion major minor).1
        (partsNext walSegmentSize pgVersion major minor).2 := by
  rw [walSegmentNext, walName_timeline timelineFits, walName_major timelineFits majorFits,
    walName_minor timelineFits majorFits minorFits, strtolHex_fmtHex8 timelineFits,
    strtolHex_fmtHex8 majorFits, strtolHex_fmtHex8 minorFits]
  rfl

end Names

theorem walName_lt_iff {timeline major minor major' minor' : Nat} (majorFits : major < 2 ^ 32)
    (minorFits : minor < 2 ^ 32) (majorFits' : major' < 2 ^ 32) (minorFits' : minor' < 2 ^ 32) :
    walName timeline major minor < walName timeline major' minor' ↔
      major < major' ∨ major = major' ∧ minor < minor' := by
  have fits : (2 : Nat) ^ 32 = 16 ^ 8 := by decide
  rw [fits] at majorFits minorFits majorFits' minorFits'
  rw [walName, walName, List.append_assoc, List.append_assoc, append_lt_append_left_iff,
    fmtHex8_eq majorFits, fmtHex8_eq majorFits', fmtHex8_eq minorFits, fmtHex8_eq minorFits',
    append_lt_append_iff (by simp), hexDigits_lt_iff majorFits majorFits',
    hexDigits_lt_iff minorFits minorFits']
  constructor
  · rintro (less | ⟨same, less⟩)
    · exact .inl less
    · exact .inr ⟨hexDigits_inj majorFits majorFits' same, less⟩
  · rintro (less | ⟨rfl, less⟩)
    · exact .inl less
    · exact .inr ⟨rfl, less⟩

theorem partsNext_lt {walSegmentSize pgVersion major minor : Nat} (majorFits : major < 2 ^ 32) :
    (partsNext walSegmentSize pgVersion major minor).1 < 2 ^ 32 ∧
      (partsNext walSegmentSize pgVersion major minor).2 < 2 ^ 32 := by
  unfold partsNext
  dsimp only
  split <;> split <;> constructor <;> dsimp only <;> omega

end WalSegment
