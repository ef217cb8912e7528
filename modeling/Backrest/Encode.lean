import Mathlib.Data.List.GetD
import Backrest.BitGroups
import Backrest.Text

/-!
# Base64

Three bytes become four characters of the table, and a last group of one or two bytes is
padded. The decoder takes characters from outside: they are signed, and they index a table.
A position of a text is an unsigned integer and a position of the bytes that are decoded is
a signed one.
-/

namespace Encode

open Text BitGroups

section Code

abbrev Bytes := List UInt8

/-- How a call ends that does not return: with an error of the program, or with a step that
has no meaning. -/
inductive Stop where
  | throw (e : Error)
  /-- An access before or behind the source. -/
  | outside
  /-- An index below 0 into the table. -/
  | tableIndex
  /-- A position that its integer does not hold. -/
  | overflow
  deriving DecidableEq

def encodeBase64Lookup : Bytes :=
  "ABCDEFGHIJKLMNOPQRSTUVWXYZabcdefghijklmnopqrstuvwxyz0123456789+/".toList.map
    fun c => UInt8.ofNat c.toNat

def encodeChar (n : Nat) : UInt8 := encodeBase64Lookup.getD n 0

/-- The text, three bytes after the other. -/
def encodeGroups : Bytes → Bytes
  | [] => []
  | [x] => [encodeChar (x.toNat >>> 2), encodeChar ((x.toNat &&& 0x03) <<< 4), 0x3d, 0x3d]
  | [x, y] => [encodeChar (x.toNat >>> 2),
      encodeChar ((x.toNat &&& 0x03) <<< 4 ||| (y.toNat &&& 0xf0) >>> 4),
      encodeChar ((y.toNat &&& 0x0f) <<< 2), 0x3d]
  | x :: y :: z :: rest => encodeChar (x.toNat >>> 2) ::
      encodeChar ((x.toNat &&& 0x03) <<< 4 ||| (y.toNat &&& 0xf0) >>> 4) ::
      encodeChar ((y.toNat &&& 0x0f) <<< 2 ||| (z.toNat &&& 0xc0) >>> 6) ::
      encodeChar (z.toNat &&& 0x3f) :: encodeGroups rest

/-- `destinationIdx` is unsigned: a longer text goes on at its own start. -/
def encodeToStrBase64 (source : Bytes) : Except Stop Bytes :=
  if (encodeGroups source).length < 2 ^ 32 then .ok (encodeGroups source) else .error .overflow

def encodeToStrSizeBase64 (sourceSize : Nat) : Nat :=
  let encodeGroupTotal := if sourceSize % 3 ≠ 0 then sourceSize / 3 + 1 else sourceSize / 3
  encodeGroupTotal * 4 % 2 ^ 64

def decodeBase64Lookup : List (BitVec 32) := [
  -1, -1, -1, -1, -1, -1, -1, -1, -1, -1, -1, -1, -1, -1, -1, -1,
  -1, -1, -1, -1, -1, -1, -1, -1, -1, -1, -1, -1, -1, -1, -1, -1,
  -1, -1, -1, -1, -1, -1, -1, -1, -1, -1, -1, 62, -1, -1, -1, 63,
  52, 53, 54, 55, 56, 57, 58, 59, 60, 61, -1, -1, -1, -1, -1, -1,
  -1,  0,  1,  2,  3,  4,  5,  6,  7,  8,  9, 10, 11, 12, 13, 14,
  15, 16, 17, 18, 19, 20, 21, 22, 23, 24, 25, -1, -1, -1, -1, -1,
  -1, 26, 27, 28, 29, 30, 31, 32, 33, 34, 35, 36, 37, 38, 39, 40,
  41, 42, 43, 44, 45, 46, 47, 48, 49, 50, 51, -1, -1, -1, -1, -1,
  -1, -1, -1, -1, -1, -1, -1, -1, -1, -1, -1, -1, -1, -1, -1, -1,
  -1, -1, -1, -1, -1, -1, -1, -1, -1, -1, -1, -1, -1, -1, -1, -1,
  -1, -1, -1, -1, -1, -1, -1, -1, -1, -1, -1, -1, -1, -1, -1, -1,
  -1, -1, -1, -1, -1, -1, -1, -1, -1, -1, -1, -1, -1, -1, -1, -1,
  -1, -1, -1, -1, -1, -1, -1, -1, -1, -1, -1, -1, -1, -1, -1, -1,
  -1, -1, -1, -1, -1, -1, -1, -1, -1, -1, -1, -1, -1, -1, -1, -1,
  -1, -1, -1, -1, -1, -1, -1, -1, -1, -1, -1, -1, -1, -1, -1, -1,
  -1, -1, -1, -1, -1, -1, -1, -1, -1, -1, -1, -1, -1, -1, -1, -1]

/-- `decodeBase64Lookup[(int)c]`. A `char` is signed, so a byte from 128 up is negative. -/
def decodeChar (c : UInt8) : Except Stop (BitVec 32) :=
  if c.toNat < 128 then .ok (decodeBase64Lookup.getD c.toNat (-1)) else .error .tableIndex

/-- A character of the source. The terminator is behind the last one. -/
def sourceAt (source : Bytes) (idx : Nat) : Except Stop UInt8 :=
  if idx < source.length then .ok (source.getD idx 0)
  else if idx = source.length then .ok 0
  else .error .outside

def sizeError (size : Nat) : Error :=
  ⟨.formatError, "base64 size ".toList ++ fmtUInt size ++ " is not evenly divisible by 4".toList⟩

def positionError : Error :=
  ⟨.formatError, "base64 '=' character may only appear in last two positions".toList⟩

def lastError : Error :=
  ⟨.formatError, "base64 last character must be '=' if second to last is".toList⟩

def characterError (sourceIdx : Nat) : Error :=
  ⟨.formatError, "base64 invalid character found at position ".toList ++ fmtUInt sourceIdx⟩

/-- One round of the check of all characters. -/
def validateChar (source : Bytes) (sourceIdx : Nat) (c : UInt8) : Except Stop Unit :=
  if c = 0x3d then
    if sourceIdx < source.length - 2 then .error (.throw positionError)
    else if sourceIdx = source.length - 2 ∧ source.getD (source.length - 1) 0 ≠ 0x3d then
      .error (.throw lastError)
    else .ok ()
  else
    match decodeChar c with
    | .error stop => .error stop
    | .ok value => if value = -1 then .error (.throw (characterError sourceIdx)) else .ok ()

/-- `sourceIdx` is unsigned: the check of a longer text starts again and does not end. -/
def validateFrom (source : Bytes) : Nat → Bytes → Except Stop Unit
  | sourceIdx, rest =>
    if sourceIdx = 2 ^ 32 then .error .overflow
    else
      match rest with
      | [] => .ok ()
      | c :: rest =>
        match validateChar source sourceIdx c with
        | .error stop => .error stop
        | .ok () => validateFrom source (sourceIdx + 1) rest

def decodeToBinValidateBase64 (source : Bytes) : Except Stop Unit :=
  if source.length % 4 ≠ 0 then .error (.throw (sizeError source.length))
  else validateFrom source 0 source

/-- `(unsigned char)` -/
def toByte (value : BitVec 32) : UInt8 := UInt8.ofBitVec (value.setWidth 8)

def decodeGroup (a b c d : UInt8) : Except Stop Bytes := do
  let first ← decodeChar a
  let second ← decodeChar b
  let more ← if c ≠ 0x3d then do
      let third ← decodeChar c
      pure [toByte (second <<< 4 ||| third.sshiftRight 2)]
    else pure []
  let last ← if d ≠ 0x3d then do
      let third ← decodeChar c
      let fourth ← decodeChar d
      pure [toByte ((third <<< 6 &&& 0xc0) ||| fourth)]
    else pure []
  return toByte (first <<< 2 ||| second.sshiftRight 4) :: (more ++ last)

/-- The bytes, four characters after the other. A group that is cut short is read past the
terminator, unless only its last character is missing. -/
def decodeGroups : Bytes → Except Stop Bytes
  | [] => .ok []
  | a :: b :: c :: d :: rest => do
    let group ← decodeGroup a b c d
    let later ← decodeGroups rest
    return group ++ later
  | [a, b, c] => decodeGroup a b c 0
  | _ => .error .outside

/-- `destinationIdx` is an `int`, which counts the bytes. -/
def decodeToBinBase64 (source : Bytes) : Except Stop Bytes := do
  decodeToBinValidateBase64 source
  let destination ← decodeGroups source
  if destination.length < 2 ^ 31 then return destination else throw .overflow

/-- A difference of type `size_t`. -/
@[irreducible]
def sizeMinus (size n : Nat) : Nat := (size + 2 ^ 64 - n) % 2 ^ 64

def decodeToBinSizeBase64 (source : Bytes) : Except Stop Nat := do
  decodeToBinValidateBase64 source
  let destinationSize := source.length / 4 * 3
  let last ← sourceAt source (sizeMinus source.length 1)
  if last = 0x3d then
    let second ← sourceAt source (sizeMinus source.length 2)
    return if second = 0x3d then destinationSize - 2 else destinationSize - 1
  else return destinationSize

end Code

section Meaning

/-- A character of the alphabet. -/
def Plain (c : UInt8) : Prop := c ∈ encodeBase64Lookup

instance (c : UInt8) : Decidable (Plain c) := inferInstanceAs (Decidable (_ ∈ _))

/-- The six bits of a character. -/
def sextet (c : UInt8) : Nat := encodeBase64Lookup.idxOf c

/-- The bits of the characters of a text other than the padding. -/
def sextets (text : Bytes) : List Nat := (text.filter (· ≠ 0x3d)).map sextet

def octets (b : Bytes) : List Nat := b.map UInt8.toNat

/-- The bytes have the bits of the text, less those that do not fill a byte. -/
structure Denotes (text b : Bytes) : Prop where
  size : b.length = (sextets text).length * 6 / 8
  bits : bitsOf 8 (octets b) = (bitsOf 6 (sextets text)).take (8 * b.length)

/-- Groups of four characters, the last of which may be padded. -/
def Valid : Bytes → Prop
  | [] => True
  | [a, b, c, d] => Plain a ∧ Plain b ∧ (c = 0x3d ∧ d = 0x3d ∨ Plain c ∧ (d = 0x3d ∨ Plain d))
  | a :: b :: c :: d :: rest => Plain a ∧ Plain b ∧ Plain c ∧ Plain d ∧ Valid rest
  | _ => False

/-- A character that may stand at its position. -/
def Good (source : Bytes) (i : Nat) (c : UInt8) : Prop :=
  (c = 0x3d ∧ source.length ≤ i + 2 ∧
    (i + 2 = source.length → source.getD (source.length - 1) 0 = 0x3d)) ∨ Plain c

/-- A character that the check refuses at its position. -/
def Wrong (source : Bytes) (i : Nat) (c : UInt8) : Prop :=
  (c = 0x3d ∧ (i + 2 < source.length ∨
    (i + 2 = source.length ∧ source.getD (source.length - 1) 0 ≠ 0x3d))) ∨
  (c ≠ 0x3d ∧ c.toNat < 128 ∧ ¬ Plain c)

/-- The check comes to a character that it refuses, from some position on. -/
def RefusedFrom (source : Bytes) (sourceIdx : Nat) (rest : Bytes) : Prop :=
  ∃ j c, sourceIdx + j < 2 ^ 32 ∧ rest[j]? = some c ∧ Wrong source (sourceIdx + j) c ∧
    ∀ k c', k < j → rest[k]? = some c' → Good source (sourceIdx + k) c'

def Refused (source : Bytes) : Prop := RefusedFrom source 0 source

end Meaning

section Table

theorem encodeBase64Lookup_codes : encodeBase64Lookup = [
    65, 66, 67, 68, 69, 70, 71, 72, 73, 74, 75, 76, 77, 78, 79, 80, 81, 82, 83, 84, 85, 86, 87,
    88, 89, 90, 97, 98, 99, 100, 101, 102, 103, 104, 105, 106, 107, 108, 109, 110, 111, 112, 113,
    114, 115, 116, 117, 118, 119, 120, 121, 122, 48, 49, 50, 51, 52, 53, 54, 55, 56, 57, 43, 47] := by
  decide +kernel

theorem length_encodeBase64Lookup : encodeBase64Lookup.length = 64 := by
  rw [encodeBase64Lookup_codes]
  rfl

theorem nodup_encodeBase64Lookup : encodeBase64Lookup.Nodup := by
  rw [encodeBase64Lookup_codes]
  decide

theorem encodeChar_eq {n : Nat} (small : n < 64) :
    ∃ inside : n < encodeBase64Lookup.length, encodeChar n = encodeBase64Lookup[n] :=
  ⟨length_encodeBase64Lookup ▸ small, List.getD_eq_getElem _ _ _⟩

theorem encodeChar_plain {n : Nat} (small : n < 64) : Plain (encodeChar n) := by
  obtain ⟨inside, same⟩ := encodeChar_eq small
  rw [same]
  exact List.getElem_mem inside

theorem sextet_encodeChar {n : Nat} (small : n < 64) : sextet (encodeChar n) = n := by
  obtain ⟨inside, same⟩ := encodeChar_eq small
  rw [same]
  exact nodup_encodeBase64Lookup.idxOf_getElem n inside

/-- The one table is the inverse of the other. -/
theorem decodeBase64Lookup_encodeChar : ∀ n : Fin 64,
    (encodeChar n).toNat < 128 ∧
      decodeBase64Lookup.getD (encodeChar n).toNat (-1) = BitVec.ofNat 32 n ∧
      encodeChar n ≠ 0x3d := by
  simp only [encodeChar, encodeBase64Lookup_codes]
  decide +kernel

theorem decodeBase64Lookup_other : ∀ n : Fin 128, decodeBase64Lookup.getD n (-1) = -1 ∨
    (decodeBase64Lookup.getD n (-1)).toNat < 64 ∧
      encodeChar (decodeBase64Lookup.getD n (-1)).toNat = UInt8.ofNat n := by
  simp only [encodeChar, encodeBase64Lookup_codes]
  decide +kernel

variable {c : UInt8}

theorem Plain.encodeChar (plain : Plain c) : sextet c < 64 ∧ Encode.encodeChar (sextet c) = c := by
  have small : sextet c < 64 := by
    rw [← length_encodeBase64Lookup]
    exact List.idxOf_lt_length_iff.mpr plain
  obtain ⟨inside, same⟩ := encodeChar_eq small
  refine ⟨small, ?_⟩
  rw [same]
  exact List.getElem_idxOf inside

theorem Plain.spec (plain : Plain c) :
    decodeChar c = .ok (BitVec.ofNat 32 (sextet c)) ∧ sextet c < 64 ∧ c ≠ 0x3d := by
  obtain ⟨small, same⟩ := plain.encodeChar
  obtain ⟨ascii, value, notPad⟩ := decodeBase64Lookup_encodeChar ⟨sextet c, small⟩
  dsimp only at ascii value notPad
  rw [same] at ascii value notPad
  exact ⟨by rw [decodeChar, if_pos ascii, value], small, notPad⟩

theorem Plain.ne_minus_one (plain : Plain c) : BitVec.ofNat 32 (sextet c) ≠ -1 := by
  have small := plain.spec.2.1
  intro same
  have value := congrArg BitVec.toNat same
  rw [BitVec.toNat_ofNat, Nat.mod_eq_of_lt (by omega)] at value
  change sextet c = 4294967295 at value
  omega

theorem decodeChar_other (other : ¬ Plain c) :
    decodeChar c = if c.toNat < 128 then .ok (-1) else .error .tableIndex := by
  rw [decodeChar]
  split
  next ascii =>
    rcases decodeBase64Lookup_other ⟨c.toNat, ascii⟩ with none | ⟨small, same⟩
    · rw [none]
    · refine absurd ?_ other
      rw [UInt8.ofNat_toNat] at same
      rw [← same]
      exact encodeChar_plain small
  next => rfl

end Table

section Validate
variable {source rest : Bytes} {sourceIdx : Nat} {c : UInt8}

theorem validateChar_good (size : 2 ≤ source.length) (good : Good source sourceIdx c) :
    validateChar source sourceIdx c = .ok () := by
  rcases good with ⟨pad, late, last⟩ | plain
  · rw [validateChar, if_pos pad, if_neg (by omega), if_neg]
    rintro ⟨second, other⟩
    exact other (last (by omega))
  · obtain ⟨value, -, notPad⟩ := plain.spec
    rw [validateChar, if_neg notPad, value]
    exact if_neg plain.ne_minus_one

theorem validateChar_wrong (size : 2 ≤ source.length) (wrong : Wrong source sourceIdx c) :
    ∃ e, e.type = .formatError ∧ validateChar source sourceIdx c = .error (.throw e) := by
  rcases wrong with ⟨pad, early | ⟨second, other⟩⟩ | ⟨notPad, ascii, other⟩
  · refine ⟨positionError, rfl, ?_⟩
    rw [validateChar, if_pos pad, if_pos (by omega)]
  · refine ⟨lastError, rfl, ?_⟩
    rw [validateChar, if_pos pad, if_neg (by omega), if_pos ⟨by omega, other⟩]
  · refine ⟨characterError sourceIdx, rfl, ?_⟩
    rw [validateChar, if_neg notPad, decodeChar_other other, if_pos ascii]
    rfl

/-- What is neither good nor wrong is a byte from 128 up. -/
theorem validateChar_high (good : ¬ Good source sourceIdx c) (wrong : ¬ Wrong source sourceIdx c) :
    validateChar source sourceIdx c = .error .tableIndex := by
  rw [Good, not_or] at good
  rw [Wrong, not_or] at wrong
  by_cases pad : c = 0x3d
  · exfalso
    by_cases early : sourceIdx + 2 < source.length
    · exact wrong.1 ⟨pad, Or.inl early⟩
    · by_cases last : source.getD (source.length - 1) 0 = 0x3d
      · exact good.1 ⟨pad, by omega, fun _ => last⟩
      · by_cases second : sourceIdx + 2 = source.length
        · exact wrong.1 ⟨pad, Or.inr ⟨second, last⟩⟩
        · exact good.1 ⟨pad, by omega, fun same => absurd same second⟩
  · have high : ¬ c.toNat < 128 := fun ascii => wrong.2 ⟨pad, ascii, good.2⟩
    rw [validateChar, if_neg pad, decodeChar_other good.2, if_neg high]

theorem Wrong.not_good (size : 2 ≤ source.length) (wrong : Wrong source sourceIdx c) :
    ¬ Good source sourceIdx c := by
  intro good
  obtain ⟨e, -, refused⟩ := validateChar_wrong size wrong
  rw [validateChar_good size good] at refused
  cases refused

theorem validateFrom_nil (inside : sourceIdx < 2 ^ 32) : validateFrom source sourceIdx [] = .ok () := by
  rw [validateFrom, if_neg (by omega)]

theorem validateFrom_wrapped : validateFrom source (2 ^ 32) rest = .error .overflow := by
  rw [validateFrom.eq_def]
  exact if_pos rfl

theorem validateFrom_good (size : 2 ≤ source.length) (inside : sourceIdx < 2 ^ 32)
    (good : Good source sourceIdx c) :
    validateFrom source sourceIdx (c :: rest) = validateFrom source (sourceIdx + 1) rest := by
  rw [validateFrom, if_neg (by omega), validateChar_good size good]

/-- A check that goes through has found every character good. -/
theorem validateFrom_ok (size : 2 ≤ source.length) (inside : sourceIdx ≤ 2 ^ 32)
    (ok : validateFrom source sourceIdx rest = .ok ()) :
    sourceIdx + rest.length < 2 ^ 32 ∧
      ∀ j c, rest[j]? = some c → Good source (sourceIdx + j) c := by
  induction rest generalizing sourceIdx with
  | nil =>
    by_cases wrapped : sourceIdx = 2 ^ 32
    · rw [wrapped, validateFrom_wrapped] at ok
      cases ok
    · exact ⟨by simp only [List.length_nil]; omega, fun j c here => by cases here⟩
  | cons head rest ih =>
    by_cases wrapped : sourceIdx = 2 ^ 32
    · rw [wrapped, validateFrom_wrapped] at ok
      cases ok
    · by_cases good : Good source sourceIdx head
      · rw [validateFrom_good size (by omega) good] at ok
        obtain ⟨short, later⟩ := ih (by omega) ok
        refine ⟨by simp only [List.length_cons]; omega, ?_⟩
        intro j c here
        cases j with
        | zero =>
          cases here
          exact good
        | succ j =>
          have later := later j c here
          rwa [Nat.add_right_comm] at later
      · exfalso
        rw [validateFrom, if_neg wrapped] at ok
        by_cases wrong : Wrong source sourceIdx head
        · obtain ⟨e, -, refused⟩ := validateChar_wrong size wrong
          rw [refused] at ok
          cases ok
        · rw [validateChar_high good wrong] at ok
          cases ok

theorem refusedFrom_cons_good (size : 2 ≤ source.length) (good : Good source sourceIdx c) :
    RefusedFrom source sourceIdx (c :: rest) ↔ RefusedFrom source (sourceIdx + 1) rest := by
  constructor
  · rintro ⟨j, found, inside, here, wrong, before⟩
    cases j with
    | zero =>
      cases here
      exact absurd good (wrong.not_good size)
    | succ j =>
      have shift : ∀ k, sourceIdx + 1 + k = sourceIdx + (k + 1) := by omega
      refine ⟨j, found, by omega, here, (shift j).symm ▸ wrong, ?_⟩
      intro k c' less there
      rw [shift]
      exact before (k + 1) c' (by omega) there
  · rintro ⟨j, found, inside, here, wrong, before⟩
    have shift : ∀ k, sourceIdx + 1 + k = sourceIdx + (k + 1) := by omega
    refine ⟨j + 1, found, by omega, here, (shift j) ▸ wrong, ?_⟩
    intro k c' less there
    cases k with
    | zero =>
      cases there
      exact good
    | succ k =>
      rw [← shift]
      exact before k c' (by omega) there

/-- The check ends in an error of the program exactly when it comes to a refused character. -/
theorem validateFrom_throw (size : 2 ≤ source.length) (inside : sourceIdx ≤ 2 ^ 32) :
    (RefusedFrom source sourceIdx rest →
      ∃ e, e.type = .formatError ∧ validateFrom source sourceIdx rest = .error (.throw e)) ∧
    ∀ e, validateFrom source sourceIdx rest = .error (.throw e) →
      RefusedFrom source sourceIdx rest := by
  induction rest generalizing sourceIdx with
  | nil =>
    constructor
    · rintro ⟨j, found, -, here, -⟩
      cases here
    · intro e refused
      rw [validateFrom] at refused
      split at refused
      · cases refused
      · cases refused
  | cons head rest ih =>
    by_cases wrapped : sourceIdx = 2 ^ 32
    · constructor
      · rintro ⟨j, found, small, -⟩
        omega
      · intro e refused
        rw [wrapped, validateFrom_wrapped] at refused
        cases refused
    · by_cases good : Good source sourceIdx head
      · rw [refusedFrom_cons_good size good, validateFrom_good size (by omega) good]
        exact ih (by omega)
      · rw [validateFrom, if_neg wrapped]
        by_cases wrong : Wrong source sourceIdx head
        · obtain ⟨e, format, refused⟩ := validateChar_wrong size wrong
          rw [refused]
          refine ⟨fun _ => ⟨e, format, rfl⟩, fun _ _ => ?_⟩
          exact ⟨0, head, by omega, rfl, wrong, fun k c' less => absurd less (Nat.not_lt_zero k)⟩
        · rw [validateChar_high good wrong]
          constructor
          · rintro ⟨j, found, -, here, refused, before⟩
            cases j with
            | zero =>
              cases here
              exact absurd refused wrong
            | succ j => exact absurd (before 0 head (by omega) rfl) good
          · intro e refused
            cases refused

end Validate

section Groups
variable {a b c d : UInt8} {rest source : Bytes}

theorem sextets_nil : sextets [] = [] := rfl

theorem sextets_pad : sextets (0x3d :: rest) = sextets rest := by
  rw [sextets, List.filter_cons_of_neg (by decide)]
  rfl

theorem sextets_plain (plain : Plain c) : sextets (c :: rest) = sextet c :: sextets rest := by
  have kept : decide (c ≠ 0x3d) = true := decide_eq_true plain.spec.2.2
  rw [sextets, List.filter_cons, if_pos kept, List.map_cons]
  rfl

theorem valid_cons (size : rest ≠ []) :
    Valid (a :: b :: c :: d :: rest) ↔ Plain a ∧ Plain b ∧ Plain c ∧ Plain d ∧ Valid rest := by
  cases rest with
  | nil => exact absurd rfl size
  | cons e rest => rfl

theorem getD_last (front : Bytes) (whole : source = front ++ [a, b, c, d]) :
    source.getD (source.length - 1) 0 = d := by
  have place : source.length - 1 - front.length = 3 := by
    rw [whole, List.length_append]
    simp
  rw [whole, List.getD_append_right _ _ _ _ (by simp), ← whole, place]
  rfl

theorem valid_of_good {source : Bytes} (front rest : Bytes) (whole : source = front ++ rest)
    (size : rest.length % 4 = 0)
    (good : ∀ j c, rest[j]? = some c → Good source (front.length + j) c) : Valid rest := by
  match rest with
  | [] => trivial
  | [a, b, c, d] =>
    have length : source.length = front.length + 4 := by rw [whole, List.length_append]; rfl
    have last := getD_last front whole
    have first : Plain a := by
      rcases good 0 a rfl with ⟨-, late, -⟩ | plain
      · omega
      · exact plain
    have second : Plain b := by
      rcases good 1 b rfl with ⟨-, late, -⟩ | plain
      · omega
      · exact plain
    refine ⟨first, second, ?_⟩
    rcases good 2 c rfl with ⟨pad, -, pads⟩ | plain
    · exact Or.inl ⟨pad, last ▸ pads (by omega)⟩
    · right
      refine ⟨plain, ?_⟩
      rcases good 3 d rfl with ⟨pad, -, -⟩ | plain
      · exact Or.inl pad
      · exact Or.inr plain
  | a :: b :: c :: d :: e :: rest =>
    have length : source.length = front.length + (4 + (e :: rest).length) := by
      rw [whole, List.length_append]
      simp only [List.length_cons]
      omega
    simp only [List.length_cons] at size length
    have plainAt : ∀ j c', j < 4 → (a :: b :: c :: d :: e :: rest)[j]? = some c' → Plain c' := by
      intro j c' early here
      rcases good j c' here with ⟨-, late, -⟩ | plain
      · omega
      · exact plain
    refine ⟨plainAt 0 a (by omega) rfl, plainAt 1 b (by omega) rfl, plainAt 2 c (by omega) rfl,
      plainAt 3 d (by omega) rfl, ?_⟩
    have split : source = front ++ [a, b, c, d] ++ e :: rest := by
      rw [whole, List.append_assoc]
      rfl
    apply valid_of_good (front ++ [a, b, c, d]) (e :: rest) split
    · simp only [List.length_cons]
      omega
    · intro j c' here
      have later := good (4 + j) c' (by rw [Nat.add_comm]; exact here)
      rwa [List.length_append, Nat.add_assoc]
  | [_] => simp at size
  | [_, _] => simp at size
  | [_, _, _] => simp at size

/-- What is valid goes through the check. -/
theorem validateFrom_valid {source : Bytes} (front rest : Bytes) (whole : source = front ++ rest)
    (short : source.length < 2 ^ 32) (valid : Valid rest) :
    validateFrom source front.length rest = .ok () := by
  have length : source.length = front.length + rest.length := by rw [whole, List.length_append]
  match rest with
  | [] => exact validateFrom_nil (by omega)
  | [a, b, c, d] =>
    obtain ⟨first, second, others⟩ := valid
    simp only [List.length_cons, List.length_nil] at length
    have last := getD_last front whole
    have goodC : Good source (front.length + 1 + 1) c := by
      rcases others with ⟨pad, pads⟩ | ⟨plain, -⟩
      · exact Or.inl ⟨pad, by omega, fun _ => last.trans pads⟩
      · exact Or.inr plain
    have goodD : Good source (front.length + 1 + 1 + 1) d := by
      rcases others with ⟨-, pads⟩ | ⟨-, pads | plain⟩
      · exact Or.inl ⟨pads, by omega, fun _ => by omega⟩
      · exact Or.inl ⟨pads, by omega, fun _ => by omega⟩
      · exact Or.inr plain
    rw [validateFrom_good (by omega) (by omega) (Or.inr first),
      validateFrom_good (by omega) (by omega) (Or.inr second),
      validateFrom_good (by omega) (by omega) goodC,
      validateFrom_good (by omega) (by omega) goodD]
    exact validateFrom_nil (by omega)
  | a :: b :: c :: d :: e :: rest =>
    obtain ⟨first, second, third, fourth, later⟩ := valid
    simp only [List.length_cons] at length
    rw [validateFrom_good (by omega) (by omega) (Or.inr first),
      validateFrom_good (by omega) (by omega) (Or.inr second),
      validateFrom_good (by omega) (by omega) (Or.inr third),
      validateFrom_good (by omega) (by omega) (Or.inr fourth)]
    have next := validateFrom_valid (front ++ [a, b, c, d]) (e :: rest)
      (by rw [whole, List.append_assoc]; rfl) short later
    rwa [List.length_append] at next
  | [_] => exact valid.elim
  | [_, _] => exact valid.elim
  | [_, _, _] => exact valid.elim

end Groups

section Bits
variable {a b c d : UInt8} {x y z : UInt8} {rest bytes : Bytes}

theorem toNat_toByte (value : BitVec 32) : (toByte value).toNat = value.toNat % 256 := by
  rw [toByte, UInt8.toNat_ofBitVec, BitVec.toNat_setWidth]

theorem shiftLeft_or {high low : Nat} (width : Nat) (small : low < 2 ^ width) :
    high <<< width ||| low = high * 2 ^ width + low := by
  rw [← Nat.shiftLeft_add_eq_or_of_lt small, Nat.shiftLeft_eq]

theorem toNat_int {n : Nat} (small : n < 64) : (BitVec.ofNat 32 n).toNat = n := by
  rw [BitVec.toNat_ofNat]
  omega

theorem toNat_sshiftRight {n : Nat} (small : n < 64) (width : Nat) :
    ((BitVec.ofNat 32 n).sshiftRight width).toNat = n / 2 ^ width := by
  have positive : (BitVec.ofNat 32 n).msb = false := by
    rw [BitVec.msb_eq_false_iff_two_mul_lt, toNat_int small]
    omega
  rw [BitVec.sshiftRight_eq_of_msb_false positive, BitVec.toNat_ushiftRight, toNat_int small,
    Nat.shiftRight_eq_div_pow]

theorem toNat_shiftLeft {n width : Nat} (small : n < 64) (short : width ≤ 6) :
    (BitVec.ofNat 32 n <<< width).toNat = n <<< width := by
  rw [BitVec.toNat_shiftLeft, toNat_int small]
  apply Nat.mod_eq_of_lt
  rw [Nat.shiftLeft_eq]
  have power : 2 ^ width ≤ 2 ^ 6 := Nat.pow_le_pow_right (by omega) short
  have product : n * 2 ^ width ≤ n * 2 ^ 6 := Nat.mul_le_mul_left n power
  omega

section Values
variable {i j : Nat} (smallI : i < 64) (smallJ : j < 64)
include smallI smallJ

theorem toByte_first :
    (toByte (BitVec.ofNat 32 i <<< 2 ||| (BitVec.ofNat 32 j).sshiftRight 4)).toNat =
      i * 4 + j / 16 := by
  rw [toNat_toByte, BitVec.toNat_or, toNat_shiftLeft smallI (by omega), toNat_sshiftRight smallJ,
    shiftLeft_or 2 (by omega)]
  omega

theorem toByte_second :
    (toByte (BitVec.ofNat 32 i <<< 4 ||| (BitVec.ofNat 32 j).sshiftRight 2)).toNat =
      i % 16 * 16 + j / 4 := by
  rw [toNat_toByte, BitVec.toNat_or, toNat_shiftLeft smallI (by omega), toNat_sshiftRight smallJ,
    shiftLeft_or 4 (by omega)]
  omega

theorem toByte_third :
    (toByte ((BitVec.ofNat 32 i <<< 6 &&& 0xc0) ||| BitVec.ofNat 32 j)).toNat =
      i % 4 * 64 + j := by
  have high : ∀ n : Fin 64, n.val <<< 6 &&& 0xc0 = (n.val % 4) <<< 6 := by decide
  have mask : (BitVec.ofNat 32 i <<< 6 &&& 0xc0).toNat = (i % 4) <<< 6 := by
    rw [BitVec.toNat_and, toNat_shiftLeft smallI (by omega)]
    exact high ⟨i, smallI⟩
  rw [toNat_toByte, BitVec.toNat_or, mask, toNat_int smallJ, shiftLeft_or 6 (by omega)]
  omega

end Values

theorem bits_first {i j : Nat} (small : j < 64) :
    bits 6 i ++ bits 6 j = bits 8 (i * 4 + j / 16) ++ bits 4 (j % 16) := by
  have cut := @bits_append (j / 16) (j % 16) 2 4 (by omega)
  have join := @bits_append i (j / 16) 6 2 (by omega)
  have whole : j / 16 * 2 ^ 4 + j % 16 = j := by omega
  rw [whole] at cut
  rw [cut, ← List.append_assoc, ← join]
  rfl

theorem bits_second {j k : Nat} (small : k < 64) :
    bits 4 (j % 16) ++ bits 6 k = bits 8 (j % 16 * 16 + k / 4) ++ bits 2 (k % 4) := by
  have cut := @bits_append (k / 4) (k % 4) 4 2 (by omega)
  have join := @bits_append (j % 16) (k / 4) 4 4 (by omega)
  have whole : k / 4 * 2 ^ 2 + k % 4 = k := by omega
  rw [whole] at cut
  rw [cut, ← List.append_assoc, ← join]
  rfl

theorem bits_third {k l : Nat} (small : l < 64) :
    bits 2 (k % 4) ++ bits 6 l = bits 8 (k % 4 * 64 + l) :=
  (bits_append 2 6 (by omega)).symm

theorem denotes_nil : Denotes [] [] := ⟨rfl, rfl⟩

theorem denotes_one (plainA : Plain a) (plainB : Plain b)
    (first : x.toNat = sextet a * 4 + sextet b / 16) : Denotes [a, b, 0x3d, 0x3d] [x] := by
  have whole : sextets [a, b, 0x3d, 0x3d] = [sextet a, sextet b] := by
    rw [sextets_plain plainA, sextets_plain plainB, sextets_pad, sextets_pad, sextets_nil]
  constructor
  · rw [whole]
    simp
  · rw [whole]
    simp only [bitsOf_cons, bitsOf_nil, List.append_nil, octets, List.map_cons, List.map_nil]
    rw [bits_first plainB.spec.2.1, ← first]
    exact (List.take_left' (length_bits 8 _)).symm

theorem denotes_two (plainA : Plain a) (plainB : Plain b) (plainC : Plain c)
    (first : x.toNat = sextet a * 4 + sextet b / 16)
    (second : y.toNat = sextet b % 16 * 16 + sextet c / 4) : Denotes [a, b, c, 0x3d] [x, y] := by
  have whole : sextets [a, b, c, 0x3d] = [sextet a, sextet b, sextet c] := by
    rw [sextets_plain plainA, sextets_plain plainB, sextets_plain plainC, sextets_pad, sextets_nil]
  constructor
  · rw [whole]
    simp
  · rw [whole]
    simp only [bitsOf_cons, bitsOf_nil, List.append_nil, octets, List.map_cons, List.map_nil]
    rw [← List.append_assoc, bits_first plainB.spec.2.1, List.append_assoc,
      bits_second plainC.spec.2.1, ← first, ← second, ← List.append_assoc]
    exact (List.take_left' (by simp)).symm

theorem denotes_cons (plainA : Plain a) (plainB : Plain b) (plainC : Plain c) (plainD : Plain d)
    (first : x.toNat = sextet a * 4 + sextet b / 16)
    (second : y.toNat = sextet b % 16 * 16 + sextet c / 4)
    (third : z.toNat = sextet c % 4 * 64 + sextet d) (later : Denotes rest bytes) :
    Denotes (a :: b :: c :: d :: rest) (x :: y :: z :: bytes) := by
  have whole : sextets (a :: b :: c :: d :: rest) =
      sextet a :: sextet b :: sextet c :: sextet d :: sextets rest := by
    rw [sextets_plain plainA, sextets_plain plainB, sextets_plain plainC, sextets_plain plainD]
  have front : bits 6 (sextet a) ++ (bits 6 (sextet b) ++ (bits 6 (sextet c) ++ bits 6 (sextet d))) =
      bits 8 x.toNat ++ (bits 8 y.toNat ++ bits 8 z.toNat) := by
    rw [← List.append_assoc, bits_first plainB.spec.2.1, List.append_assoc,
      ← List.append_assoc (bits 4 _), bits_second plainC.spec.2.1, List.append_assoc,
      bits_third plainD.spec.2.1, first, second, third]
  constructor
  · rw [whole]
    have size := later.size
    simp only [List.length_cons]
    omega
  · have join : bitsOf 6 (sextets (a :: b :: c :: d :: rest)) =
        (bits 8 x.toNat ++ (bits 8 y.toNat ++ bits 8 z.toNat)) ++ bitsOf 6 (sextets rest) := by
      rw [whole, ← front]
      simp only [bitsOf_cons, List.append_assoc]
    have size : 8 * (x :: y :: z :: bytes).length =
        (bits 8 x.toNat ++ (bits 8 y.toNat ++ bits 8 z.toNat)).length + 8 * bytes.length := by
      simp only [List.length_cons, List.length_append, length_bits]
      omega
    rw [join, size, List.take_length_add_append, ← later.bits]
    simp only [octets, List.map_cons, bitsOf_cons, List.append_assoc]

theorem denotes_unique {text first second : Bytes} (left : Denotes text first)
    (right : Denotes text second) : first = second := by
  have small : ∀ (bytes : Bytes), ∀ n ∈ octets bytes, n < 2 ^ 8 := by
    intro bytes n mem
    obtain ⟨byte, -, rfl⟩ := List.mem_map.mp mem
    exact byte.toNat_lt
  have length : first.length = second.length := left.size.trans right.size.symm
  have same : octets first = octets second := by
    apply bitsOf_inj (small first) (small second)
    · rw [octets, octets, List.length_map, List.length_map, length]
    · rw [left.bits, right.bits, length]
  exact List.map_injective_iff.mpr (fun _ _ => UInt8.toNat_inj.mp) same

end Bits

section Decode
variable {a b c d : UInt8} {source rest : Bytes}

theorem toByte_decoded (plainA : Plain a) (plainB : Plain b) :
    (toByte (BitVec.ofNat 32 (sextet a) <<< 2 |||
        (BitVec.ofNat 32 (sextet b)).sshiftRight 4)).toNat = sextet a * 4 + sextet b / 16 ∧
      (toByte (BitVec.ofNat 32 (sextet a) <<< 4 |||
        (BitVec.ofNat 32 (sextet b)).sshiftRight 2)).toNat = sextet a % 16 * 16 + sextet b / 4 ∧
      (toByte ((BitVec.ofNat 32 (sextet a) <<< 6 &&& 0xc0) ||| BitVec.ofNat 32 (sextet b))).toNat =
        sextet a % 4 * 64 + sextet b :=
  ⟨toByte_first plainA.spec.2.1 plainB.spec.2.1, toByte_second plainA.spec.2.1 plainB.spec.2.1,
    toByte_third plainA.spec.2.1 plainB.spec.2.1⟩

theorem decodeGroup_plain (plainA : Plain a) (plainB : Plain b) (plainC : Plain c)
    (plainD : Plain d) :
    decodeGroup a b c d = .ok [
      toByte (BitVec.ofNat 32 (sextet a) <<< 2 ||| (BitVec.ofNat 32 (sextet b)).sshiftRight 4),
      toByte (BitVec.ofNat 32 (sextet b) <<< 4 ||| (BitVec.ofNat 32 (sextet c)).sshiftRight 2),
      toByte ((BitVec.ofNat 32 (sextet c) <<< 6 &&& 0xc0) ||| BitVec.ofNat 32 (sextet d))] := by
  rw [decodeGroup, plainA.spec.1, plainB.spec.1, plainC.spec.1, plainD.spec.1]
  dsimp only [bind, Except.bind]
  rw [if_pos plainC.spec.2.2]
  dsimp only [pure, Except.pure]
  rw [if_pos plainD.spec.2.2]
  rfl

theorem decodeGroups_valid (text : Bytes) (valid : Valid text) :
    ∃ bytes, decodeGroups text = .ok bytes ∧ Denotes text bytes := by
  match text with
  | [] => exact ⟨[], rfl, denotes_nil⟩
  | [a, b, c, d] =>
    obtain ⟨plainA, plainB, others⟩ := valid
    rw [decodeGroups]
    rcases others with ⟨rfl, rfl⟩ | ⟨plainC, rfl | plainD⟩
    · rw [decodeGroup, plainA.spec.1, plainB.spec.1]
      exact ⟨_, rfl, denotes_one plainA plainB (toByte_decoded plainA plainB).1⟩
    · rw [decodeGroup, plainA.spec.1, plainB.spec.1, plainC.spec.1]
      dsimp only [bind, Except.bind]
      rw [if_pos plainC.spec.2.2]
      exact ⟨_, rfl, denotes_two plainA plainB plainC (toByte_decoded plainA plainB).1
        (toByte_decoded plainB plainC).2.1⟩
    · rw [decodeGroup_plain plainA plainB plainC plainD]
      exact ⟨_, rfl, denotes_cons plainA plainB plainC plainD (toByte_decoded plainA plainB).1
        (toByte_decoded plainB plainC).2.1 (toByte_decoded plainC plainD).2.2 denotes_nil⟩
  | a :: b :: c :: d :: e :: rest =>
    obtain ⟨plainA, plainB, plainC, plainD, later⟩ := valid
    obtain ⟨bytes, decoded, denotes⟩ := decodeGroups_valid (e :: rest) later
    rw [decodeGroups, decodeGroup_plain plainA plainB plainC plainD, decoded]
    exact ⟨_, rfl, denotes_cons plainA plainB plainC plainD (toByte_decoded plainA plainB).1
      (toByte_decoded plainB plainC).2.1 (toByte_decoded plainC plainD).2.2 denotes⟩
  | [_] => exact valid.elim
  | [_, _] => exact valid.elim
  | [_, _, _] => exact valid.elim

def padding (text : Bytes) : Nat :=
  if text.getD (text.length - 1) 0 = 0x3d then
    if text.getD (text.length - 2) 0 = 0x3d then 2 else 1
  else 0

theorem padding_cons (size : 4 ≤ rest.length) : padding (a :: b :: c :: d :: rest) = padding rest := by
  have last : (a :: b :: c :: d :: rest).length - 1 = rest.length - 1 + 1 + 1 + 1 + 1 := by
    simp only [List.length_cons]
    omega
  have second : (a :: b :: c :: d :: rest).length - 2 = rest.length - 2 + 1 + 1 + 1 + 1 := by
    simp only [List.length_cons]
    omega
  rw [padding, last, second]
  rfl

theorem length_valid {text : Bytes} (valid : Valid text) : text.length % 4 = 0 := by
  match text with
  | [] => simp
  | [a, b, c, d] => simp
  | a :: b :: c :: d :: e :: rest =>
    have later := length_valid valid.2.2.2.2
    simp only [List.length_cons] at later ⊢
    omega
  | [_] => exact valid.elim
  | [_, _] => exact valid.elim
  | [_, _, _] => exact valid.elim

/-- Three bytes for each group, less the padding. -/
theorem size_valid (text : Bytes) (valid : Valid text) (some : text ≠ []) :
    (sextets text).length * 6 / 8 + padding text = text.length / 4 * 3 := by
  match text with
  | [] => exact absurd rfl some
  | [a, b, c, d] =>
    obtain ⟨plainA, plainB, others⟩ := valid
    rw [sextets_plain plainA, sextets_plain plainB]
    rcases others with ⟨rfl, rfl⟩ | ⟨plainC, rfl | plainD⟩
    · rw [sextets_pad, sextets_pad, sextets_nil]
      have pads : padding [a, b, 0x3d, 0x3d] = 2 := rfl
      rw [pads]
      simp
    · rw [sextets_plain plainC, sextets_pad, sextets_nil]
      have notPad : padding [a, b, c, 0x3d] = 1 := if_neg plainC.spec.2.2
      rw [notPad]
      simp
    · rw [sextets_plain plainC, sextets_plain plainD, sextets_nil]
      have notPad : padding [a, b, c, d] = 0 := if_neg plainD.spec.2.2
      rw [notPad]
      simp
  | a :: b :: c :: d :: e :: rest =>
    obtain ⟨plainA, plainB, plainC, plainD, later⟩ := valid
    have groups := length_valid later
    have size := size_valid (e :: rest) later (by simp)
    have four : 4 ≤ (e :: rest).length := by
      simp only [List.length_cons] at groups ⊢
      omega
    rw [padding_cons four, sextets_plain plainA, sextets_plain plainB, sextets_plain plainC,
      sextets_plain plainD]
    simp only [List.length_cons] at size ⊢
    omega
  | [_] => exact valid.elim
  | [_, _] => exact valid.elim
  | [_, _, _] => exact valid.elim

/-- The check goes through exactly on valid texts whose positions fit. -/
theorem decodeToBinValidateBase64_ok_iff :
    decodeToBinValidateBase64 source = .ok () ↔ Valid source ∧ source.length < 2 ^ 32 := by
  rw [decodeToBinValidateBase64]
  constructor
  · intro ok
    by_cases groups : source.length % 4 = 0
    · rw [if_neg (not_not_intro groups)] at ok
      by_cases empty : source = []
      · subst empty
        exact ⟨trivial, Nat.two_pow_pos 32⟩
      · have some := List.length_pos_iff.mpr empty
        obtain ⟨short, good⟩ := validateFrom_ok (by omega) (Nat.zero_le _) ok
        exact ⟨valid_of_good [] source rfl groups good, by omega⟩
    · rw [if_pos groups] at ok
      cases ok
  · rintro ⟨valid, short⟩
    rw [if_neg (not_not_intro (length_valid valid))]
    exact validateFrom_valid [] source rfl short valid

/-- The check raises an error, which is a FormatError, exactly on these texts. -/
theorem decodeToBinValidateBase64_throw_iff :
    (∃ e, e.type = .formatError ∧ decodeToBinValidateBase64 source = .error (.throw e)) ↔
      source.length % 4 ≠ 0 ∨ Refused source := by
  rw [decodeToBinValidateBase64]
  by_cases groups : source.length % 4 = 0
  · rw [if_neg (not_not_intro groups), or_iff_right (not_not_intro groups)]
    by_cases empty : source = []
    · subst empty
      constructor
      · rintro ⟨e, -, refused⟩
        rw [validateFrom_nil (by omega)] at refused
        cases refused
      · rintro ⟨j, found, -, here, -⟩
        cases here
    · have some := List.length_pos_iff.mpr empty
      obtain ⟨forth, back⟩ :=
        @validateFrom_throw source source 0 (by omega) (Nat.zero_le _)
      exact ⟨fun ⟨e, _, refused⟩ => back e refused, forth⟩
  · rw [if_pos groups]
    exact ⟨fun _ => Or.inl groups, fun _ => ⟨_, rfl, rfl⟩⟩

theorem sourceAt_inside {idx : Nat} (inside : idx < source.length) :
    sourceAt source idx = .ok (source.getD idx 0) := if_pos inside

theorem sizeMinus_eq {size n : Nat} (less : n ≤ size) (short : size < 2 ^ 64) :
    sizeMinus size n = size - n := by
  rw [sizeMinus]
  omega

theorem sourceAt_end {n : Nat} (positive : 0 < n) (less : n ≤ source.length)
    (short : source.length < 2 ^ 64) :
    sourceAt source (sizeMinus source.length n) = .ok (source.getD (source.length - n) 0) := by
  rw [sizeMinus_eq less short, sourceAt_inside (by omega)]

/-- What the size function returns for a text that goes through the check. -/
theorem decodeToBinSizeBase64_valid (valid : Valid source) (short : source.length < 2 ^ 32)
    (some : source ≠ []) :
    decodeToBinSizeBase64 source = .ok ((sextets source).length * 6 / 8) := by
  have groups := length_valid valid
  have positive := List.length_pos_iff.mpr some
  have long : source.length < 2 ^ 64 := by omega
  have last := sourceAt_end Nat.one_pos (by omega) long
  have second := @sourceAt_end source 2 (by omega) (by omega) long
  have size : (sextets source).length * 6 / 8 = source.length / 4 * 3 - padding source := by
    rw [← size_valid source valid some, Nat.add_sub_cancel]
  rw [decodeToBinSizeBase64, decodeToBinValidateBase64_ok_iff.mpr ⟨valid, short⟩, last, second,
    size, padding]
  by_cases pad : source.getD (source.length - 1) 0 = 0x3d
  · rw [if_pos pad]
    dsimp only [bind, Except.bind]
    rw [if_pos pad]
    by_cases pads : source.getD (source.length - 2) 0 = 0x3d
    · rw [if_pos pads, if_pos pads]
      rfl
    · rw [if_neg pads, if_neg pads]
      rfl
  · rw [if_neg pad, Nat.sub_zero]
    dsimp only [bind, Except.bind]
    rw [if_neg pad]
    rfl

/-- The empty text is read before its start. -/
theorem decodeToBinSizeBase64_nil : decodeToBinSizeBase64 [] = .error .outside := by
  have empty : decodeToBinValidateBase64 [] = .ok () :=
    decodeToBinValidateBase64_ok_iff.mpr ⟨show Valid [] from trivial, Nat.two_pow_pos 32⟩
  have outside : sourceAt [] (sizeMinus 0 1) = .error .outside := by
    rw [sourceAt, sizeMinus, List.length_nil, if_neg (by omega), if_neg (by omega)]
  rw [decodeToBinSizeBase64, empty, List.length_nil, outside]
  rfl

theorem decodeToBinBase64_valid {bytes : Bytes} (valid : Valid source)
    (short : source.length < 2 ^ 32) (denotes : Denotes source bytes) :
    decodeToBinBase64 source =
      if bytes.length < 2 ^ 31 then .ok bytes else .error .overflow := by
  obtain ⟨found, decoded, denotes'⟩ := decodeGroups_valid source valid
  obtain rfl := denotes_unique denotes denotes'
  rw [decodeToBinBase64, decodeToBinValidateBase64_ok_iff.mpr ⟨valid, short⟩, decoded]
  dsimp only [bind, Except.bind]
  split
  · rfl
  · rfl

end Decode

section Encoded

theorem and_low (n : Nat) : n &&& 0x03 = n % 4 ∧ n &&& 0x0f = n % 16 ∧ n &&& 0x3f = n % 64 :=
  ⟨Nat.and_two_pow_sub_one_eq_mod n 2, Nat.and_two_pow_sub_one_eq_mod n 4,
    Nat.and_two_pow_sub_one_eq_mod n 6⟩

theorem and_high {n : Nat} (small : n < 256) :
    (n &&& 0xf0) >>> 4 = n / 16 ∧ (n &&& 0xc0) >>> 6 = n / 64 := by
  have four := Nat.and_two_pow_sub_one_eq_mod (n >>> 4) 4
  have two := Nat.and_two_pow_sub_one_eq_mod (n >>> 6) 2
  rw [Nat.shiftRight_and_distrib, Nat.shiftRight_and_distrib]
  change (n >>> 4 &&& 2 ^ 4 - 1) = _ ∧ (n >>> 6 &&& 2 ^ 2 - 1) = _
  rw [four, two, Nat.shiftRight_eq_div_pow, Nat.shiftRight_eq_div_pow]
  omega

variable (x y z : UInt8)

theorem first_value : x.toNat >>> 2 = x.toNat / 4 := Nat.shiftRight_eq_div_pow _ 2

theorem second_value : (x.toNat &&& 0x03) <<< 4 ||| (y.toNat &&& 0xf0) >>> 4 =
    x.toNat % 4 * 16 + y.toNat / 16 := by
  have small := y.toNat_lt
  rw [(and_low _).1, (and_high small).1]
  exact shiftLeft_or 4 (by omega)

theorem third_value : (y.toNat &&& 0x0f) <<< 2 ||| (z.toNat &&& 0xc0) >>> 6 =
    y.toNat % 16 * 4 + z.toNat / 64 := by
  have small := z.toNat_lt
  rw [(and_low _).2.1, (and_high small).2]
  exact shiftLeft_or 2 (by omega)

theorem encodeGroups_spec (source : Bytes) :
    Valid (encodeGroups source) ∧ Denotes (encodeGroups source) source ∧
      (encodeGroups source).length = (source.length + 2) / 3 * 4 := by
  match source with
  | [] => exact ⟨trivial, denotes_nil, rfl⟩
  | [x] =>
    have small := x.toNat_lt
    have firstSmall : x.toNat / 4 < 64 := by omega
    have secondSmall : x.toNat % 4 * 16 < 64 := by omega
    have shift : (x.toNat % 4) <<< 4 = x.toNat % 4 * 16 := Nat.shiftLeft_eq _ 4
    rw [encodeGroups, first_value, (and_low _).1, shift]
    refine ⟨⟨encodeChar_plain firstSmall, encodeChar_plain secondSmall, Or.inl ⟨rfl, rfl⟩⟩, ?_,
      by simp⟩
    apply denotes_one (encodeChar_plain firstSmall) (encodeChar_plain secondSmall)
    rw [sextet_encodeChar firstSmall, sextet_encodeChar secondSmall]
    omega
  | [x, y] =>
    have smallX := x.toNat_lt
    have smallY := y.toNat_lt
    have firstSmall : x.toNat / 4 < 64 := by omega
    have secondSmall : x.toNat % 4 * 16 + y.toNat / 16 < 64 := by omega
    have thirdSmall : y.toNat % 16 * 4 < 64 := by omega
    have shift : (y.toNat % 16) <<< 2 = y.toNat % 16 * 4 := Nat.shiftLeft_eq _ 2
    rw [encodeGroups, first_value, second_value, (and_low _).2.1, shift]
    refine ⟨⟨encodeChar_plain firstSmall, encodeChar_plain secondSmall,
      Or.inr ⟨encodeChar_plain thirdSmall, Or.inl rfl⟩⟩, ?_, by simp⟩
    apply denotes_two (encodeChar_plain firstSmall) (encodeChar_plain secondSmall)
      (encodeChar_plain thirdSmall)
    · rw [sextet_encodeChar firstSmall, sextet_encodeChar secondSmall]
      omega
    · rw [sextet_encodeChar secondSmall, sextet_encodeChar thirdSmall]
      omega
  | x :: y :: z :: rest =>
    obtain ⟨valid, denotes, length⟩ := encodeGroups_spec rest
    have smallX := x.toNat_lt
    have smallY := y.toNat_lt
    have smallZ := z.toNat_lt
    have firstSmall : x.toNat / 4 < 64 := by omega
    have secondSmall : x.toNat % 4 * 16 + y.toNat / 16 < 64 := by omega
    have thirdSmall : y.toNat % 16 * 4 + z.toNat / 64 < 64 := by omega
    have fourthSmall : z.toNat % 64 < 64 := by omega
    rw [encodeGroups, first_value, second_value, third_value, (and_low _).2.2]
    refine ⟨?_, ?_, ?_⟩
    · have plain : Plain (encodeChar (y.toNat % 16 * 4 + z.toNat / 64)) ∧
          Plain (encodeChar (z.toNat % 64)) :=
        ⟨encodeChar_plain thirdSmall, encodeChar_plain fourthSmall⟩
      by_cases last : encodeGroups rest = []
      · rw [last]
        exact ⟨encodeChar_plain firstSmall, encodeChar_plain secondSmall,
          Or.inr ⟨plain.1, Or.inr plain.2⟩⟩
      · rw [valid_cons last]
        exact ⟨encodeChar_plain firstSmall, encodeChar_plain secondSmall, plain.1, plain.2, valid⟩
    · apply denotes_cons (encodeChar_plain firstSmall) (encodeChar_plain secondSmall)
        (encodeChar_plain thirdSmall) (encodeChar_plain fourthSmall) _ _ _ denotes
      · rw [sextet_encodeChar firstSmall, sextet_encodeChar secondSmall]
        omega
      · rw [sextet_encodeChar secondSmall, sextet_encodeChar thirdSmall]
        omega
      · rw [sextet_encodeChar thirdSmall, sextet_encodeChar fourthSmall]
        omega
    · simp only [List.length_cons, length]
      omega

end Encoded

section Claimed

def ReadBack (b : Bytes) : Prop :=
  ∃ text, encodeToStrBase64 b = .ok text ∧ text.length = encodeToStrSizeBase64 b.length ∧
    decodeToBinSizeBase64 text = .ok b.length ∧ decodeToBinBase64 text = .ok b

def Handled (text : Bytes) : Prop :=
  (∃ e, e.type = .formatError ∧ decodeToBinSizeBase64 text = .error (.throw e) ∧
    decodeToBinBase64 text = .error (.throw e)) ∨
  ∃ b, decodeToBinSizeBase64 text = .ok b.length ∧ decodeToBinBase64 text = .ok b ∧ Denotes text b

theorem encodeToStrSizeBase64_eq {sourceSize : Nat} (short : sourceSize < 2 ^ 32) :
    encodeToStrSizeBase64 sourceSize = (sourceSize + 2) / 3 * 4 := by
  rw [encodeToStrSizeBase64]
  split
  · omega
  · omega

theorem readBack_iff (b : Bytes) : ReadBack b ↔ b ≠ [] ∧ b.length < 2 ^ 31 := by
  obtain ⟨valid, denotes, length⟩ := encodeGroups_spec b
  rw [ReadBack, encodeToStrBase64]
  by_cases fits : (encodeGroups b).length < 2 ^ 32
  · rw [if_pos fits]
    constructor
    · rintro ⟨text, same, -, size, bytes⟩
      cases same
      constructor
      · rintro rfl
        rw [encodeGroups, decodeToBinSizeBase64_nil] at size
        cases size
      · by_contra long
        rw [decodeToBinBase64_valid valid fits denotes, if_neg long] at bytes
        cases bytes
    · rintro ⟨some, short⟩
      have filled : encodeGroups b ≠ [] := by
        have positive := List.length_pos_iff.mpr some
        apply List.ne_nil_of_length_pos
        omega
      refine ⟨_, rfl, ?_, ?_, ?_⟩
      · rw [length, encodeToStrSizeBase64_eq (by omega)]
      · rw [decodeToBinSizeBase64_valid valid fits filled, ← denotes.size]
      · rw [decodeToBinBase64_valid valid fits denotes, if_pos short]
  · rw [if_neg fits]
    constructor
    · rintro ⟨text, same, -⟩
      cases same
    · rintro ⟨-, short⟩
      omega

theorem decode_stop {text : Bytes} {stop : Stop}
    (stopped : decodeToBinValidateBase64 text = .error stop) :
    decodeToBinSizeBase64 text = .error stop ∧ decodeToBinBase64 text = .error stop := by
  rw [decodeToBinSizeBase64, decodeToBinBase64, stopped]
  exact ⟨rfl, rfl⟩

theorem padding_le (text : Bytes) : padding text ≤ 2 := by
  rw [padding]
  split
  · split
    · omega
    · omega
  · omega

theorem handled_cases {text : Bytes} (handled : Handled text) :
    text ≠ [] ∧ ((∃ e, decodeToBinValidateBase64 text = .error (.throw e)) ∨
      (decodeToBinValidateBase64 text = .ok () ∧ ∃ b, decodeToBinBase64 text = .ok b)) := by
  rcases handled with ⟨e, -, size, bytes⟩ | ⟨b, size, bytes, -⟩
  · constructor
    · rintro rfl
      rw [decodeToBinSizeBase64_nil] at size
      cases size
    · left
      cases checked : decodeToBinValidateBase64 text with
      | error stop =>
        rw [(decode_stop checked).2] at bytes
        cases bytes
        exact ⟨e, rfl⟩
      | ok _ =>
        obtain ⟨valid, short⟩ := decodeToBinValidateBase64_ok_iff.mp checked
        obtain ⟨found, -, denotes⟩ := decodeGroups_valid text valid
        rw [decodeToBinBase64_valid valid short denotes] at bytes
        split at bytes
        · cases bytes
        · cases bytes
  · constructor
    · rintro rfl
      rw [decodeToBinSizeBase64_nil] at size
      cases size
    · right
      cases checked : decodeToBinValidateBase64 text with
      | error stop =>
        rw [(decode_stop checked).2] at bytes
        cases bytes
      | ok _ => exact ⟨rfl, b, bytes⟩

theorem handled_iff (text : Bytes) : Handled text ↔
    text ≠ [] ∧ (text.length % 4 ≠ 0 ∨ Refused text ∨
      (Valid text ∧ (sextets text).length * 6 / 8 < 2 ^ 31)) := by
  constructor
  · intro handled
    obtain ⟨some, ⟨e, refused⟩ | ⟨checked, b, bytes⟩⟩ := handled_cases handled
    · refine ⟨some, ?_⟩
      rw [← or_assoc]
      left
      apply decodeToBinValidateBase64_throw_iff.mp
      rcases handled with ⟨e', format, -, bytes⟩ | ⟨b, -, bytes, -⟩
      · rw [(decode_stop refused).2] at bytes
        cases bytes
        exact ⟨e, format, refused⟩
      · rw [(decode_stop refused).2] at bytes
        cases bytes
    · obtain ⟨valid, short⟩ := decodeToBinValidateBase64_ok_iff.mp checked
      obtain ⟨found, -, denotes⟩ := decodeGroups_valid text valid
      rw [decodeToBinBase64_valid valid short denotes] at bytes
      refine ⟨some, Or.inr (Or.inr ⟨valid, ?_⟩)⟩
      rw [← denotes.size]
      by_contra long
      rw [if_neg long] at bytes
      cases bytes
  · rintro ⟨some, cases⟩
    rw [← or_assoc] at cases
    rcases cases with refused | ⟨valid, few⟩
    · obtain ⟨e, format, stopped⟩ := decodeToBinValidateBase64_throw_iff.mpr refused
      exact Or.inl ⟨e, format, decode_stop stopped⟩
    · have size := size_valid text valid some
      have groups := length_valid valid
      have pads := padding_le text
      have short : text.length < 2 ^ 32 := by omega
      obtain ⟨b, -, denotes⟩ := decodeGroups_valid text valid
      right
      refine ⟨b, ?_, ?_, denotes⟩
      · rw [decodeToBinSizeBase64_valid valid short some, denotes.size]
      · rw [decodeToBinBase64_valid valid short denotes, if_pos (denotes.size ▸ few)]

/-- Bytes are read back unless there are none or too many. A text is handled unless it is empty,
has a byte from 128 up where the check comes to it, or is too long. -/
theorem encode_decode_iff (b text : Bytes) :
    (ReadBack b ↔ b ≠ [] ∧ b.length < 2 ^ 31) ∧
    (Handled text ↔ text ≠ [] ∧ (text.length % 4 ≠ 0 ∨ Refused text ∨
      (Valid text ∧ (sextets text).length * 6 / 8 < 2 ^ 31))) :=
  ⟨readBack_iff b, handled_iff text⟩

/-- The empty text is read before its start, and a byte from 128 up is an index below 0. -/
theorem encode_decode_fails : ¬ ReadBack [] ∧ ¬ Handled [0x80, 0x41, 0x41, 0x41] := by
  constructor
  · rintro ⟨text, same, -, size, -⟩
    cases same
    rw [encodeGroups, decodeToBinSizeBase64_nil] at size
    cases size
  · intro handled
    have stopped : decodeToBinValidateBase64 [0x80, 0x41, 0x41, 0x41] = .error .tableIndex := by
      decide
    obtain ⟨-, ⟨e, refused⟩ | ⟨checked, -⟩⟩ := handled_cases handled
    · rw [stopped] at refused
      cases refused
    · rw [stopped] at checked
      cases checked

end Claimed

end Encode
