import Backrest.Text
import Mathlib.Data.Nat.Bitwise
import Mathlib.Data.Nat.Digits.Defs

/-!
# Short strings as integers

The characters of a string are mapped to codes of five or six bits, which stand one after the other
behind a header. A code is never zero, so the end of the string is where all the rest is zero.
-/

namespace StringId

open Text (Error)

abbrev Bytes := List UInt8

def stringIdBitMask : Nat := 3

def stringIdHeaderSize : Nat := 4

def stringIdPrefix : Nat := 4

def strId5Max : Nat := 13

def strId6Max : Nat := 11

inductive StringIdBit
  | stringIdBit5
  | stringIdBit6
  deriving DecidableEq

def StringIdBit.value : StringIdBit → Nat
  | .stringIdBit5 => 0
  | .stringIdBit6 => 1

/-- Map to convert characters to the 5-bit encoding. -/
def map5 : List Nat := [
  0, 0, 0, 0, 0, 0, 0, 0, 0, 0, 0, 0, 0, 0, 0, 0,
  0, 0, 0, 0, 0, 0, 0, 0, 0, 0, 0, 0, 0, 0, 0, 0,
  0, 0, 0, 0, 0, 0, 0, 0, 0, 0, 0, 0, 0, 27, 0, 0,
  0, 0, 28, 0, 0, 29, 30, 0, 0, 0, 0, 0, 0, 0, 0, 0,
  0, 0, 0, 0, 0, 0, 0, 0, 0, 0, 0, 0, 0, 0, 0, 0,
  0, 0, 0, 0, 0, 0, 0, 0, 0, 0, 0, 0, 0, 0, 0, 0,
  0, 1, 2, 3, 4, 5, 6, 7, 8, 9, 10, 11, 12, 13, 14, 15,
  16, 17, 18, 19, 20, 21, 22, 23, 24, 25, 26, 0, 0, 0, 0, 0,
  0, 0, 0, 0, 0, 0, 0, 0, 0, 0, 0, 0, 0, 0, 0, 0,
  0, 0, 0, 0, 0, 0, 0, 0, 0, 0, 0, 0, 0, 0, 0, 0,
  0, 0, 0, 0, 0, 0, 0, 0, 0, 0, 0, 0, 0, 0, 0, 0,
  0, 0, 0, 0, 0, 0, 0, 0, 0, 0, 0, 0, 0, 0, 0, 0,
  0, 0, 0, 0, 0, 0, 0, 0, 0, 0, 0, 0, 0, 0, 0, 0,
  0, 0, 0, 0, 0, 0, 0, 0, 0, 0, 0, 0, 0, 0, 0, 0,
  0, 0, 0, 0, 0, 0, 0, 0, 0, 0, 0, 0, 0, 0, 0, 0,
  0, 0, 0, 0, 0, 0, 0, 0, 0, 0, 0, 0, 0, 0, 0, 0]

/-- Map to convert characters to the 6-bit encoding. -/
def map6 : List Nat := [
  0, 0, 0, 0, 0, 0, 0, 0, 0, 0, 0, 0, 0, 0, 0, 0,
  0, 0, 0, 0, 0, 0, 0, 0, 0, 0, 0, 0, 0, 0, 0, 0,
  0, 0, 0, 0, 0, 0, 0, 0, 0, 0, 0, 0, 0, 27, 0, 0,
  28, 29, 30, 31, 32, 33, 34, 35, 36, 37, 0, 0, 0, 0, 0, 0,
  0, 38, 39, 40, 41, 42, 43, 44, 45, 46, 47, 48, 49, 50, 51, 52,
  53, 54, 55, 56, 57, 58, 59, 60, 61, 62, 63, 0, 0, 0, 0, 0,
  0, 1, 2, 3, 4, 5, 6, 7, 8, 9, 10, 11, 12, 13, 14, 15,
  16, 17, 18, 19, 20, 21, 22, 23, 24, 25, 26, 0, 0, 0, 0, 0,
  0, 0, 0, 0, 0, 0, 0, 0, 0, 0, 0, 0, 0, 0, 0, 0,
  0, 0, 0, 0, 0, 0, 0, 0, 0, 0, 0, 0, 0, 0, 0, 0,
  0, 0, 0, 0, 0, 0, 0, 0, 0, 0, 0, 0, 0, 0, 0, 0,
  0, 0, 0, 0, 0, 0, 0, 0, 0, 0, 0, 0, 0, 0, 0, 0,
  0, 0, 0, 0, 0, 0, 0, 0, 0, 0, 0, 0, 0, 0, 0, 0,
  0, 0, 0, 0, 0, 0, 0, 0, 0, 0, 0, 0, 0, 0, 0, 0,
  0, 0, 0, 0, 0, 0, 0, 0, 0, 0, 0, 0, 0, 0, 0, 0,
  0, 0, 0, 0, 0, 0, 0, 0, 0, 0, 0, 0, 0, 0, 0, 0]

def zBytes (text : String) : Bytes := text.toList.map fun c => UInt8.ofNat c.toNat

/-- Map to convert the 5-bit encoding to characters. -/
def chars5 : Bytes := zBytes "!abcdefghijklmnopqrstuvwxyz-256!"

/-- Map to convert the 6-bit encoding to characters. -/
def chars6 : Bytes := zBytes "!abcdefghijklmnopqrstuvwxyz-0123456789ABCDEFGHIJKLMNOPQRSTUVWXYZ"

/-- The tables of an encoding: the codes of characters, the place of each code, and the characters of
codes. -/
structure Encoding where
  bit : StringIdBit
  width : Nat
  max : Nat
  map : List Nat
  shifts : List Nat
  chars : Bytes
  shifts_eq : shifts = (List.range (max - 1)).map fun idx => stringIdHeaderSize + width * idx
  size : stringIdHeaderSize + width * (max - 1) ≤ 64
  some : 1 < max
  code_lt : ∀ code ∈ map, code < 2 ^ width
  chars_code : ∀ entry ∈ map.zipIdx, entry.1 ≠ 0 → chars[entry.1]? = .some (UInt8.ofNat entry.2)

def encoding5 : Encoding where
  bit := .stringIdBit5
  width := 5
  max := strId5Max
  map := map5
  shifts := [4, 9, 14, 19, 24, 29, 34, 39, 44, 49, 54, 59]
  chars := chars5
  shifts_eq := by decide
  size := by decide
  some := by decide
  code_lt := by decide +kernel
  chars_code := by decide +kernel

def encoding6 : Encoding where
  bit := .stringIdBit6
  width := 6
  max := strId6Max
  map := map6
  shifts := [4, 10, 16, 22, 28, 34, 40, 46, 52, 58]
  chars := chars6
  shifts_eq := by decide
  size := by decide
  some := by decide
  code_lt := by decide +kernel
  chars_code := by decide +kernel

def encoding : StringIdBit → Encoding
  | .stringIdBit5 => encoding5
  | .stringIdBit6 => encoding6

section Code
variable (enc : Encoding)

def Encoding.code (c : UInt8) : Nat := enc.map.getD c.toNat 0

/-- The case of the last character falls through to the ones before it. -/
def fallThrough : List (Nat × UInt8) → Nat → Nat
  | [], result => result
  | (shift, c) :: before, result =>
    fallThrough before result ||| (enc.code c <<< shift) % 2 ^ 64

/-- The characters that are encoded. If there are more, the prefix flag is set. -/
def encode (buffer : Bytes) : Nat :=
  fallThrough enc (enc.shifts.zip buffer)
    (enc.bit.value ||| if enc.max ≤ buffer.length then stringIdPrefix else 0)

def strIdFromZN (bit : StringIdBit) (buffer : Bytes) : Nat := encode (encoding bit) buffer

/-- The characters, all but the last with the check for the end. -/
def decode (hasPrefix : Bool) : Nat → Nat → Bytes
  | 0, strId =>
    enc.chars.getD (strId &&& (2 ^ enc.width - 1)) 0 :: if hasPrefix then zBytes "+" else []
  | count + 1, strId =>
    enc.chars.getD (strId &&& (2 ^ enc.width - 1)) 0 ::
      if strId >>> enc.width = 0 then [] else decode hasPrefix count (strId >>> enc.width)

def strIdToZN (strId : Nat) : Except Error Bytes :=
  let hasPrefix := strId &&& stringIdPrefix ≠ 0
  let bit := strId &&& stringIdBitMask
  let strId := strId >>> stringIdHeaderSize
  if bit = StringIdBit.stringIdBit5.value then .ok (decode encoding5 hasPrefix 11 strId)
  else if bit = StringIdBit.stringIdBit6.value then .ok (decode encoding6 hasPrefix 9 strId)
  else .error ⟨.assertError, "check 'bit == stringIdBit6' failed".toList⟩

end Code

/-- The characters have codes. -/
def Over (bit : StringIdBit) (s : Bytes) : Prop := ∀ c ∈ s, (encoding bit).code c ≠ 0

section Pack
variable {enc : Encoding}

theorem code_lt (c : UInt8) : enc.code c < 2 ^ enc.width := by
  rw [Encoding.code, List.getD_eq_getElem?_getD]
  cases place : enc.map[c.toNat]? with
  | none => exact Nat.two_pow_pos _
  | some code => exact enc.code_lt code (List.mem_of_getElem? place)

theorem chars_code {c : UInt8} (some : enc.code c ≠ 0) : enc.chars[enc.code c]? = .some c := by
  rw [Encoding.code, List.getD_eq_getElem?_getD] at some ⊢
  cases place : enc.map[c.toNat]? with
  | none =>
    rw [place] at some
    exact absurd rfl some
  | some code =>
    rw [place] at some
    have char := enc.chars_code (code, c.toNat) (List.mem_zipIdx_iff_getElem?.mpr place) some
    rw [UInt8.ofNat_toNat] at char
    exact char

/-- The codes of characters as one number. -/
def pack (enc : Encoding) (s : Bytes) : Nat := Nat.ofDigits (2 ^ enc.width) (s.map enc.code)

theorem pack_cons (c : UInt8) (s : Bytes) :
    pack enc (c :: s) = enc.code c + 2 ^ enc.width * pack enc s := by
  rw [pack, List.map_cons, Nat.ofDigits_cons]
  rfl

theorem pack_pos {c : UInt8} {s : Bytes} (some : enc.code c ≠ 0) : pack enc (c :: s) ≠ 0 := by
  rw [pack_cons]
  omega

/-- Each code is put in front of the ones behind it. -/
theorem fallThrough_eq {start count result : Nat} {s : Bytes} (room : s.length ≤ count)
    (size : start + enc.width * count ≤ 64) :
    fallThrough enc (((List.range count).map fun idx => start + enc.width * idx).zip s) result =
      result ||| pack enc s <<< start := by
  induction s generalizing start count with
  | nil =>
    have none : pack enc [] = 0 := rfl
    rw [List.zip_nil_right, fallThrough, none, Nat.zero_shiftLeft, Nat.or_zero]
  | cons c s ih =>
    rw [List.length_cons] at room
    obtain ⟨count, rfl⟩ : ∃ k, count = k + 1 := ⟨count - 1, by omega⟩
    rw [Nat.mul_add_one] at size
    have shifts : (List.range (count + 1)).map (fun idx => start + enc.width * idx) =
        start :: (List.range count).map fun idx => start + enc.width + enc.width * idx := by
      rw [List.range_succ_eq_map, List.map_cons, List.map_map, Nat.mul_zero, Nat.add_zero]
      congr 2
      funext idx
      dsimp only [Function.comp]
      rw [Nat.succ_eq_add_one, Nat.mul_add_one]
      omega
    have first := @code_lt enc c
    have fits : enc.code c <<< start < 2 ^ 64 := by
      rw [Nat.shiftLeft_eq]
      calc enc.code c * 2 ^ start < 2 ^ enc.width * 2 ^ start :=
            Nat.mul_lt_mul_of_pos_right first (Nat.two_pow_pos start)
        _ = 2 ^ (enc.width + start) := (Nat.pow_add 2 enc.width start).symm
        _ ≤ 2 ^ 64 := Nat.pow_le_pow_right (by decide) (by omega)
    have whole : pack enc (c :: s) = pack enc s <<< enc.width ||| enc.code c := by
      rw [← Nat.shiftLeft_add_eq_or_of_lt first, Nat.shiftLeft_eq, pack_cons, Nat.mul_comm,
        Nat.add_comm]
    rw [shifts, List.zip_cons_cons, fallThrough, ih (by omega) (by omega), Nat.mod_eq_of_lt fits,
      whole, Nat.shiftLeft_or_distrib, ← Nat.shiftLeft_add, Nat.add_comm enc.width, Nat.or_assoc]

/-- Only as many characters as there are places. -/
theorem zip_take {shifts : List Nat} {s : Bytes} :
    shifts.zip s = shifts.zip (s.take shifts.length) := by
  induction shifts generalizing s with
  | nil => rfl
  | cons shift shifts ih =>
    cases s with
    | nil => rfl
    | cons c s =>
      rw [List.zip_cons_cons, List.length_cons, List.take_succ_cons, List.zip_cons_cons, ← ih]

def header (enc : Encoding) (s : Bytes) : Nat :=
  enc.bit.value ||| if enc.max ≤ s.length then stringIdPrefix else 0

theorem header_lt (s : Bytes) : header enc s < 16 := by
  rw [header]
  split
  · cases enc.bit <;> decide
  · cases enc.bit <;> decide

/-- An id is the header and the codes of the first characters. -/
theorem encode_eq (s : Bytes) :
    encode enc s = pack enc (s.take (enc.max - 1)) * 16 + header enc s := by
  have count : enc.shifts.length = enc.max - 1 := by
    rw [enc.shifts_eq, List.length_map, List.length_range]
  rw [encode, zip_take, count, enc.shifts_eq, fallThrough_eq (List.length_take_le _ _) enc.size,
    ← header, Nat.or_comm, ← Nat.shiftLeft_add_eq_or_of_lt (header_lt s), Nat.shiftLeft_eq]
  rfl

end Pack

section Decode
variable {enc : Encoding} {hasPrefix : Bool}

theorem pack_and (c : UInt8) (s : Bytes) :
    pack enc (c :: s) &&& (2 ^ enc.width - 1) = enc.code c := by
  rw [Nat.and_two_pow_sub_one_eq_mod, pack_cons, Nat.add_mul_mod_self_left,
    Nat.mod_eq_of_lt (code_lt c)]

theorem pack_shiftRight (c : UInt8) (s : Bytes) :
    pack enc (c :: s) >>> enc.width = pack enc s := by
  rw [Nat.shiftRight_eq_div_pow, pack_cons, Nat.add_mul_div_left _ _ (Nat.two_pow_pos _),
    Nat.div_eq_of_lt (code_lt c), Nat.zero_add]

theorem getD_code {c : UInt8} (some : enc.code c ≠ 0) : enc.chars.getD (enc.code c) 0 = c := by
  rw [List.getD_eq_getElem?_getD, chars_code some]
  rfl

/-- Decoding stops behind the last character, or at the last place. -/
theorem decode_pack {count : Nat} {s : Bytes} (some : s ≠ []) (room : s.length ≤ count + 1)
    (codes : ∀ c ∈ s, enc.code c ≠ 0) :
    decode enc hasPrefix count (pack enc s) =
      s ++ if s.length = count + 1 ∧ hasPrefix = true then zBytes "+" else [] := by
  induction count generalizing s with
  | zero =>
    obtain ⟨c, rfl⟩ : ∃ c, s = [c] := by
      obtain ⟨c, rest, rfl⟩ := List.exists_cons_of_ne_nil some
      rw [List.length_cons] at room
      rw [List.eq_nil_of_length_eq_zero (by omega : rest.length = 0)]
      exact ⟨c, rfl⟩
    rw [decode, pack_and, getD_code (codes c List.mem_cons_self)]
    cases hasPrefix <;> rfl
  | succ count ih =>
    obtain ⟨c, rest, rfl⟩ := List.exists_cons_of_ne_nil some
    rw [List.forall_mem_cons] at codes
    rw [List.length_cons] at room
    rw [decode, pack_and, getD_code codes.1, pack_shiftRight, List.length_cons]
    cases rest with
    | nil =>
      have last : ¬ (List.length ([] : Bytes) + 1 = count + 1 + 1 ∧ hasPrefix = true) := by
        rw [List.length_nil]
        omega
      have none : pack enc [] = 0 := rfl
      rw [if_pos none, if_neg last]
      rfl
    | cons next rest =>
      have more := pack_pos (codes.2 next List.mem_cons_self) (s := rest)
      rw [if_neg more, ih (List.cons_ne_nil next rest) (by omega) codes.2]
      simp only [List.cons_append, Nat.add_right_cancel_iff]

end Decode

section RoundTrip
variable {s t : Bytes}

theorem bits_and (n : Nat) : n &&& stringIdBitMask = n % 4 :=
  Nat.and_two_pow_sub_one_eq_mod n 2

theorem prefix_and (n : Nat) : n &&& stringIdPrefix ≠ 0 ↔ n / 4 % 2 = 1 := by
  have bit : n &&& stringIdPrefix = (n.testBit 2).toNat * 2 ^ 2 := Nat.and_two_pow n 2
  rw [bit, Nat.testBit_eq_decide_div_mod_eq]
  by_cases odd : n / 2 ^ 2 % 2 = 1
  · rw [decide_eq_true odd]
    simpa using odd
  · rw [decide_eq_false odd]
    simpa using odd

/-- The header of a string says how it is encoded, and whether it was longer. -/
theorem header_eq (bit : StringIdBit) (s : Bytes) : header (encoding bit) s =
    bit.value + if (encoding bit).max ≤ s.length then 4 else 0 := by
  rw [header]
  split
  · cases bit <;> rfl
  · cases bit <;> rfl

theorem strIdToZN_eq (bit : StringIdBit) {codes longer : Nat} (flag : longer = 0 ∨ longer = 4) :
    strIdToZN (codes * 16 + (bit.value + longer)) =
      .ok (decode (encoding bit) (decide (longer = 4)) ((encoding bit).max - 2) codes) := by
  have small : bit.value < 2 := by cases bit <;> decide
  have bits : (codes * 16 + (bit.value + longer)) &&& stringIdBitMask = bit.value := by
    rw [bits_and]
    omega
  have flags : decide ((codes * 16 + (bit.value + longer)) &&& stringIdPrefix ≠ 0) =
      decide (longer = 4) := by
    rw [decide_eq_decide, prefix_and]
    omega
  have shifted : (codes * 16 + (bit.value + longer)) >>> stringIdHeaderSize = codes := by
    rw [Nat.shiftRight_eq_div_pow]
    change (codes * 16 + (bit.value + longer)) / 16 = codes
    omega
  rw [strIdToZN, bits, flags, shifted]
  cases bit with
  | stringIdBit5 => rfl
  | stringIdBit6 => rfl

/-- What an id is converted to: the string, or the front of a longer one with a plus sign. -/
theorem strIdToZN_strIdFromZN (bit : StringIdBit) (some : s ≠ []) (codes : Over bit s) :
    strIdToZN (strIdFromZN bit s) = .ok (s.take ((encoding bit).max - 1) ++
      if (encoding bit).max ≤ s.length then zBytes "+" else []) := by
  have places := (encoding bit).some
  have front : s.take ((encoding bit).max - 1) ≠ [] := by
    intro none
    rcases List.take_eq_nil_iff.mp none with zero | empty
    · omega
    · exact some empty
  have length := List.length_take_le ((encoding bit).max - 1) s
  have flag : (if (encoding bit).max ≤ s.length then 4 else 0) = 0 ∨
      (if (encoding bit).max ≤ s.length then 4 else 0) = 4 := by
    split
    · exact Or.inr rfl
    · exact Or.inl rfl
  rw [strIdFromZN, encode_eq, header_eq, strIdToZN_eq bit flag, decode_pack front (by omega)
    fun c mem => codes c (List.mem_of_mem_take mem)]
  congr 2
  by_cases longer : (encoding bit).max ≤ s.length
  · rw [if_pos longer, if_pos longer, if_pos]
    refine ⟨?_, rfl⟩
    rw [List.length_take]
    omega
  · rw [if_neg longer, if_neg longer, if_neg]
    simp

/-- The most characters that an id holds. -/
def limit : StringIdBit → Nat
  | .stringIdBit5 => 12
  | .stringIdBit6 => 10

theorem max_eq (bit : StringIdBit) : (encoding bit).max = limit bit + 1 := by
  cases bit <;> rfl

theorem strIdToZN_fits (bit : StringIdBit) (some : s ≠ []) (codes : Over bit s)
    (fits : s.length ≤ limit bit) : strIdToZN (strIdFromZN bit s) = .ok s := by
  rw [strIdToZN_strIdFromZN bit some codes, max_eq, if_neg (by omega), List.append_nil,
    List.take_of_length_le (by omega)]

theorem strIdToZN_longer (bit : StringIdBit) (codes : Over bit s) (longer : limit bit < s.length) :
    strIdToZN (strIdFromZN bit s) = .ok (s.take (limit bit) ++ zBytes "+") := by
  have some : s ≠ [] := List.ne_nil_of_length_pos (by omega)
  rw [strIdToZN_strIdFromZN bit some codes, max_eq, if_pos (Nat.succ_le_of_lt longer)]
  rfl

/-- No character of the alphabets is a plus sign. -/
theorem plus_not_over (bit : StringIdBit) (codes : Over bit s) : 43 ∉ s := by
  intro mem
  have code := codes 43 mem
  cases bit <;> exact absurd rfl code

/-- A string that fits is given back, a longer one is cut with a plus sign behind it, and ids of
strings that fit are equal neither to each other nor to those of longer strings. -/
theorem strId_round_trip :
    (∀ bit s, s ≠ [] → Over bit s → s.length ≤ limit bit →
      strIdToZN (strIdFromZN bit s) = .ok s) ∧
    (∀ bit s, Over bit s → limit bit < s.length →
      strIdToZN (strIdFromZN bit s) = .ok (s.take (limit bit) ++ zBytes "+")) ∧
    (∀ bit s t, s ≠ [] → t ≠ [] → Over bit s → Over bit t → s.length ≤ limit bit →
      t.length ≤ limit bit → strIdFromZN bit s = strIdFromZN bit t → s = t) ∧
    ∀ bit s t, s ≠ [] → Over bit s → Over bit t → s.length ≤ limit bit → limit bit < t.length →
      strIdFromZN bit s ≠ strIdFromZN bit t := by
  refine ⟨fun bit s => strIdToZN_fits bit, fun bit s => strIdToZN_longer bit, ?_, ?_⟩
  · intro bit s t some some' codes codes' fits fits' same
    have first := strIdToZN_fits bit some codes fits
    rw [same, strIdToZN_fits bit some' codes' fits'] at first
    exact (Except.ok.inj first).symm
  · intro bit s t some codes codes' fits longer same
    have first := strIdToZN_fits bit some codes fits
    rw [same, strIdToZN_longer bit codes' longer] at first
    apply plus_not_over bit codes
    rw [← Except.ok.inj first]
    exact List.mem_append_right _ List.mem_cons_self

theorem strId_round_trip_pg :
    strIdToZN (strIdFromZN .stringIdBit5 (zBytes "pg-host")) = .ok (zBytes "pg-host") ∧
      strIdToZN (strIdFromZN .stringIdBit6 (zBytes "mytest0123a")) = .ok (zBytes "mytest0123+") :=
  ⟨strId_round_trip.1 .stringIdBit5 (zBytes "pg-host") (by decide)
      (by rw [Over]; decide +kernel) (by decide),
    strId_round_trip.2.1 .stringIdBit6 (zBytes "mytest0123a")
      (by rw [Over]; decide +kernel) (by decide)⟩

/-- The value that the header file gives. -/
example : strIdFromZN .stringIdBit6 (zBytes "mytest0123a") = 0x7de75c51315464d5 := by decide +kernel

end RoundTrip

end StringId
