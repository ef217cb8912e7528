import Backrest.HexText
import Backrest.Text

/-!
# Escaped characters of a URI

The encoder writes a character that is not safe as `%` and two hexadecimal digits. The
decoder converts the two characters behind a `%` with `strtoull`, which also takes a sign.
A character of a string is a byte.
-/

namespace HttpUri

open Text HexText

section Code

/-- `isspace`: a blank, or one of the characters from tab to carriage return. -/
def isspace (c : Char) : Bool := decide (c.toNat = 32 ∨ 9 ≤ c.toNat ∧ c.toNat ≤ 13)

/-- The value of a digit to the base 16. -/
def hexValue (c : Char) : Option Nat :=
  if 48 ≤ c.toNat ∧ c.toNat ≤ 57 then some (c.toNat - 48)
  else if 65 ≤ c.toNat ∧ c.toNat ≤ 70 then some (c.toNat - 55)
  else if 97 ≤ c.toNat ∧ c.toNat ≤ 102 then some (c.toNat - 87)
  else none

def isHex (c : Char) : Bool := (hexValue c).isSome

def hexNumber (digits : Str) : Nat := digits.foldl (fun n c => 16 * n + (hexValue c).getD 0) 0

/-- A prefix that is skipped in front of digits. -/
def skipHexPrefix : Str → Str
  | '0' :: x :: c :: rest => if (x = 'x' ∨ x = 'X') ∧ isHex c then c :: rest else '0' :: x :: c :: rest
  | value => value

/-- `strtoull` to the base 16: the number, what is left and whether the number is too large. -/
def strtoull (value : Str) : Nat × Str × Bool :=
  let trimmed := value.dropWhile isspace
  let negative := trimmed.head? = some '-'
  let unsigned := if trimmed.head? = some '-' ∨ trimmed.head? = some '+' then trimmed.tail else trimmed
  let digits := (skipHexPrefix unsigned).takeWhile isHex
  if digits = [] then (0, value, false)
  else if hexNumber digits < 2 ^ 64 then
    (if negative then (2 ^ 64 - hexNumber digits) % 2 ^ 64 else hexNumber digits,
      (skipHexPrefix unsigned).dropWhile isHex, false)
  else (2 ^ 64 - 1, (skipHexPrefix unsigned).dropWhile isHex, true)

def convertError (value : Str) : Error :=
  ⟨.formatError, "unable to convert base 16 string '".toList ++ value ++
    "' to unsigned int".toList⟩

/-- `cvtZToUIntBase` with the base 16. -/
def cvtZToUIntBase (value : Str) : Except Error Nat :=
  let (result, endPtr, errNo) := strtoull value
  if errNo ∨ value = [] ∨ (value.head?.any isspace) ∨ endPtr ≠ [] then .error (convertError value)
  else if value.head? = some '-' ∨ result ≥ 2 ^ 32 then .error (convertError value)
  else .ok result

def lengthError (uri : Str) : Error :=
  ⟨.formatError, "invalid escape sequence length in '".toList ++ uri ++ ['\'']⟩

/-- The characters from a position on. -/
def decodeFrom (uri : Str) : Str → Except Error Str
  | '%' :: a :: b :: rest =>
    match cvtZToUIntBase [a, b], decodeFrom uri rest with
    | .error e, _ => .error e
    | .ok _, .error e => .error e
    | .ok n, .ok result => .ok (Char.ofNat (n % 256) :: result)
  | c :: rest =>
    if c = '%' then .error (lengthError uri)
    else
      match decodeFrom uri rest with
      | .error e => .error e
      | .ok result => .ok (c :: result)
  | [] => .ok []

def httpUriDecode (uri : Str) : Except Error Str := decodeFrom uri uri

def verbatim (path : Bool) (uriChar : Char) : Bool :=
  decide ('A' ≤ uriChar ∧ uriChar ≤ 'Z') || decide ('a' ≤ uriChar ∧ uriChar ≤ 'z') ||
    decide ('0' ≤ uriChar ∧ uriChar ≤ '9') || uriChar = '_' || uriChar = '-' || uriChar = '~' ||
    uriChar = '.' || (path && uriChar = '/')

def encodeChar (path : Bool) (uriChar : Char) : Str :=
  if verbatim path uriChar then [uriChar] else '%' :: hexDigits 2 uriChar.toNat

def httpUriEncode (uri : Str) (path : Bool) : Str := uri.flatMap (encodeChar path)

end Code

section Escapes

/-- What stands behind each `%`, two characters or what is left. -/
def escapes : Str → List Str
  | '%' :: a :: b :: rest => [a, b] :: escapes rest
  | c :: rest => if c = '%' then [rest] else escapes rest
  | [] => []

def HexPair (escape : Str) : Prop :=
  ∃ a b, escape = [a, b] ∧ (hexValue a).isSome ∧ (hexValue b).isSome

/-- What `strtoull` takes for a number though it is none of two digits. -/
def SignedDigit (escape : Str) : Prop := ∃ b, escape = ['+', b] ∧ (hexValue b).isSome

end Escapes

section Convert
variable {a b c : Char} {m n : Nat}

theorem hexValue_some (value : hexValue c = some n) :
    n < 16 ∧ isHex c = true ∧ isspace c = false ∧ c ≠ '-' ∧ c ≠ '+' := by
  have hex : isHex c = true := Option.isSome_iff_exists.mpr ⟨n, value⟩
  have range : n < 16 ∧ 48 ≤ c.toNat := by
    rw [hexValue] at value
    split at value
    · cases value
      omega
    · split at value
      · cases value
        omega
      · split at value
        · cases value
          omega
        · cases value
  refine ⟨range.1, hex, ?_, ?_, ?_⟩
  · rw [isspace, decide_eq_false_iff_not]
    omega
  · rintro rfl
    exact absurd range.2 (by decide)
  · rintro rfl
    exact absurd range.2 (by decide)

theorem isHex_false (none : hexValue c = none) : isHex c = false := by
  rw [isHex, none]
  rfl

theorem skipHexPrefix_short {value : Str} (short : value.length ≤ 2) : skipHexPrefix value = value := by
  unfold skipHexPrefix
  split
  · simp at short
  · rfl

/-- Two digits are converted. -/
theorem cvtZToUIntBase_pair (high : hexValue a = some m) (low : hexValue b = some n) :
    cvtZToUIntBase [a, b] = .ok (16 * m + n) := by
  obtain ⟨smallM, hexA, spaceA, notMinus, notPlus⟩ := hexValue_some high
  obtain ⟨smallN, hexB, -⟩ := hexValue_some low
  have skip := @skipHexPrefix_short [a, b] (by simp)
  have number : hexNumber [a, b] = 16 * m + n := by simp [hexNumber, high, low]
  have run : strtoull [a, b] = (16 * m + n, [], false) := by
    simp [strtoull, spaceA, notMinus, notPlus, skip, hexA, hexB, number]
    omega
  simp [cvtZToUIntBase, run, spaceA, notMinus]
  omega

/-- A digit behind a plus sign is converted too. -/
theorem cvtZToUIntBase_sign (low : hexValue b = some n) : cvtZToUIntBase ['+', b] = .ok n := by
  obtain ⟨smallN, hexB, -⟩ := hexValue_some low
  have space : isspace '+' = false := by decide
  have skip := @skipHexPrefix_short [b] (by simp)
  have number : hexNumber [b] = n := by simp [hexNumber, low]
  have run : strtoull ['+', b] = (n, [], false) := by
    simp [strtoull, space, skip, hexB, number]
    omega
  simp [cvtZToUIntBase, run, space]
  omega

/-- Everything else is refused. -/
theorem cvtZToUIntBase_other (notPair : ¬ HexPair [a, b]) (notSigned : ¬ SignedDigit [a, b]) :
    cvtZToUIntBase [a, b] = .error (convertError [a, b]) := by
  by_cases space : isspace a = true
  · simp [cvtZToUIntBase, space]
  · rw [Bool.not_eq_true] at space
    by_cases minus : a = '-'
    · simp [cvtZToUIntBase, minus]
    · cases high : hexValue a with
      | some m =>
        have hexA := (hexValue_some high).2.1
        have notPlus := (hexValue_some high).2.2.2.2
        have skip := @skipHexPrefix_short [a, b] (by simp)
        cases low : hexValue b with
        | some n => exact absurd ⟨a, b, rfl, by rw [high]; rfl, by rw [low]; rfl⟩ notPair
        | none =>
          have hexB := isHex_false low
          have left : (strtoull [a, b]).2.1 = [b] := by
            simp [strtoull, space, minus, notPlus, skip, hexA, hexB]
            split
            · rfl
            · rfl
          simp [cvtZToUIntBase, left]
      | none =>
        have hexA := isHex_false high
        by_cases plus : a = '+'
        · have hexB : isHex b = false := by
            cases low : hexValue b with
            | some n => exact absurd ⟨b, by rw [plus], by rw [low]; rfl⟩ notSigned
            | none => exact isHex_false low
          have skip := @skipHexPrefix_short [b] (by simp)
          have left : (strtoull [a, b]).2.1 = [a, b] := by
            subst plus
            simp [strtoull, space, skip, hexB]
          simp [cvtZToUIntBase, left]
        · have skip := @skipHexPrefix_short [a, b] (by simp)
          have left : (strtoull [a, b]).2.1 = [a, b] := by
            simp [strtoull, space, minus, plus, skip, hexA]
          simp [cvtZToUIntBase, left]

end Convert

section Decode
variable {uri rest result : Str} {a b c : Char}

theorem escapes_plain (plain : c ≠ '%') : escapes (c :: rest) = escapes rest := by
  rw [escapes.eq_def]
  split
  next same =>
    cases same
    exact absurd rfl plain
  next same =>
    cases same
    exact if_neg plain
  next same => cases same

theorem escapes_short (short : rest.length < 2) : escapes ('%' :: rest) = [rest] := by
  match rest with
  | [] => rfl
  | [c] => rfl
  | _ :: _ :: _ =>
    simp only [List.length_cons] at short
    omega

theorem decodeFrom_plain (plain : c ≠ '%') :
    decodeFrom uri (c :: rest) = (decodeFrom uri rest).map (c :: ·) := by
  rw [decodeFrom.eq_def]
  split
  next same =>
    cases same
    exact absurd rfl plain
  next same =>
    cases same
    rw [if_neg plain]
    cases decodeFrom uri rest with
    | error e => rfl
    | ok result => rfl
  next same => cases same

theorem decodeFrom_short (short : rest.length < 2) :
    decodeFrom uri ('%' :: rest) = .error (lengthError uri) := by
  match rest with
  | [] => rfl
  | [c] => rfl
  | _ :: _ :: _ =>
    simp only [List.length_cons] at short
    omega

/-- The three ways a text goes on: with a plain character, with an escape or with less than one. -/
theorem text_cases {motive : Str → Prop} (empty : motive [])
    (plain : ∀ c rest, c ≠ '%' → motive rest → motive (c :: rest))
    (escape : ∀ a b rest, motive rest → motive ('%' :: a :: b :: rest))
    (short : ∀ rest, rest.length < 2 → motive ('%' :: rest)) (s : Str) : motive s := by
  match s with
  | [] => exact empty
  | c :: rest =>
    by_cases percent : c = '%'
    · subst percent
      match rest with
      | [] => exact short [] (by simp)
      | [c] => exact short [c] (by simp)
      | a :: b :: rest => exact escape a b rest (text_cases empty plain escape short rest)
    · exact plain c rest percent (text_cases empty plain escape short rest)

theorem escapes_eq_nil_iff (s : Str) : escapes s = [] ↔ '%' ∉ s := by
  induction s using text_cases with
  | empty => simp [escapes]
  | plain c rest plain ih => rw [escapes_plain plain, ih, List.mem_cons, or_iff_right plain.symm]
  | escape a b rest ih => simp [escapes]
  | short rest short => simp [escapes_short short]

/-- A text without escapes is its own decoding. -/
theorem decodeFrom_self {s : Str} (absent : '%' ∉ s) : decodeFrom uri s = .ok s := by
  induction s with
  | nil => rfl
  | cons c rest ih =>
    rw [List.mem_cons, not_or] at absent
    rw [decodeFrom_plain (Ne.symm absent.1), ih absent.2]
    rfl

theorem cvtZToUIntBase_ok_iff :
    (∃ n, cvtZToUIntBase [a, b] = .ok n) ↔ HexPair [a, b] ∨ SignedDigit [a, b] := by
  constructor
  · rintro ⟨n, ok⟩
    by_contra neither
    rw [not_or] at neither
    rw [cvtZToUIntBase_other neither.1 neither.2] at ok
    cases ok
  · rintro (⟨x, y, same, high, low⟩ | ⟨y, same, low⟩)
    · cases same
      obtain ⟨m, high⟩ := Option.isSome_iff_exists.mp high
      obtain ⟨n, low⟩ := Option.isSome_iff_exists.mp low
      exact ⟨_, cvtZToUIntBase_pair high low⟩
    · cases same
      obtain ⟨n, low⟩ := Option.isSome_iff_exists.mp low
      exact ⟨n, cvtZToUIntBase_sign low⟩

theorem cvtZToUIntBase_error {e : Error} (error : cvtZToUIntBase [a, b] = .error e) :
    e = convertError [a, b] := by
  have refused := @cvtZToUIntBase_other a b
  by_cases taken : HexPair [a, b] ∨ SignedDigit [a, b]
  · obtain ⟨n, ok⟩ := cvtZToUIntBase_ok_iff.mpr taken
    rw [ok] at error
    cases error
  · rw [not_or] at taken
    rw [refused taken.1 taken.2] at error
    cases error
    rfl

/-- Each escape that is taken is two characters shorter afterwards. -/
theorem length_decodeFrom {s : Str} (ok : decodeFrom uri s = .ok result) :
    result.length + 2 * (escapes s).length = s.length := by
  induction s using text_cases generalizing result with
  | empty =>
    cases ok
    rfl
  | plain c rest plain ih =>
    rw [decodeFrom_plain plain] at ok
    cases later : decodeFrom uri rest with
    | error e =>
      rw [later] at ok
      cases ok
    | ok decoded =>
      rw [later] at ok
      cases ok
      have shorter := ih later
      rw [escapes_plain plain, List.length_cons, List.length_cons]
      omega
  | escape a b rest ih =>
    rw [decodeFrom] at ok
    cases number : cvtZToUIntBase [a, b] with
    | error e =>
      rw [number] at ok
      cases ok
    | ok n =>
      cases later : decodeFrom uri rest with
      | error e =>
        rw [number, later] at ok
        cases ok
      | ok decoded =>
        rw [number, later] at ok
        cases ok
        have shorter := ih later
        simp only [escapes, List.length_cons]
        omega
  | short rest short =>
    rw [decodeFrom_short short] at ok
    cases ok

theorem not_escape_short (short : rest.length < 2) : ¬ (HexPair rest ∨ SignedDigit rest) := by
  rintro (⟨a, b, rfl, -⟩ | ⟨b, rfl, -⟩)
  · simp at short
  · simp at short

/-- The decoder goes through when every escape is taken, and raises a FormatError otherwise. -/
theorem decodeFrom_spec (uri s : Str) :
    ((∃ result, decodeFrom uri s = .ok result) ↔
      ∀ escape ∈ escapes s, HexPair escape ∨ SignedDigit escape) ∧
    ∀ e, decodeFrom uri s = .error e → e.type = .formatError := by
  induction s using text_cases with
  | empty =>
    refine ⟨⟨fun _ _ mem => absurd mem List.not_mem_nil, fun _ => ⟨[], rfl⟩⟩, ?_⟩
    intro e error
    cases error
  | plain c rest plain ih =>
    rw [escapes_plain plain, decodeFrom_plain plain, ← ih.1]
    cases later : decodeFrom uri rest with
    | error e =>
      constructor
      · constructor
        · rintro ⟨result, ok⟩
          cases ok
        · rintro ⟨result, ok⟩
          cases ok
      · intro e' error
        cases error
        exact ih.2 e later
    | ok decoded => exact ⟨⟨fun _ => ⟨_, rfl⟩, fun _ => ⟨_, rfl⟩⟩, fun e error => by cases error⟩
  | escape a b rest ih =>
    rw [escapes, List.forall_mem_cons, ← ih.1, ← cvtZToUIntBase_ok_iff, decodeFrom]
    cases number : cvtZToUIntBase [a, b] with
    | error e =>
      constructor
      · constructor
        · rintro ⟨result, ok⟩
          cases ok
        · rintro ⟨⟨n, ok⟩, -⟩
          cases ok
      · intro e' error
        cases error
        rw [cvtZToUIntBase_error number]
        rfl
    | ok n =>
      cases later : decodeFrom uri rest with
      | error e =>
        constructor
        · constructor
          · rintro ⟨result, ok⟩
            cases ok
          · rintro ⟨-, result, ok⟩
            cases ok
        · intro e' error
          cases error
          exact ih.2 e later
      | ok decoded =>
        exact ⟨⟨fun _ => ⟨⟨n, rfl⟩, _, rfl⟩, fun _ => ⟨_, rfl⟩⟩, fun e error => by cases error⟩
  | short rest short =>
    rw [escapes_short short, decodeFrom_short short]
    constructor
    · constructor
      · rintro ⟨result, ok⟩
        cases ok
      · intro all
        exact absurd (all rest List.mem_cons_self) (not_escape_short short)
    · intro e error
      cases error
      rfl

end Decode

section Encode
variable {uri s rest : Str} {path : Bool} {c : Char}

theorem verbatim_ne : ∀ path, verbatim path '%' = false ∧ verbatim path '&' = false ∧
    verbatim path '=' = false := by
  decide

theorem hexValue_hexChar : ∀ d < 16, hexValue (hexChar d) = some d ∧ hexChar d ≠ '&' ∧
    hexChar d ≠ '=' := by
  decide

theorem hexDigits_two (n : Nat) : hexDigits 2 n = [hexChar (n / 16 % 16), hexChar (n % 16)] := rfl

theorem decodeFrom_encodeChar (byte : c.toNat < 256) :
    decodeFrom uri (encodeChar path c ++ rest) = (decodeFrom uri rest).map (c :: ·) := by
  rw [encodeChar]
  by_cases plain : verbatim path c = true
  · rw [if_pos plain, List.singleton_append, decodeFrom_plain]
    rintro rfl
    rw [(verbatim_ne path).1] at plain
    cases plain
  · have high := (hexValue_hexChar (c.toNat / 16 % 16) (by omega)).1
    have low := (hexValue_hexChar (c.toNat % 16) (by omega)).1
    have whole : (16 * (c.toNat / 16 % 16) + c.toNat % 16) % 256 = c.toNat := by omega
    rw [if_neg plain, hexDigits_two]
    change decodeFrom uri ('%' :: _ :: _ :: rest) = _
    rw [decodeFrom, cvtZToUIntBase_pair high low]
    cases decodeFrom uri rest with
    | error e => rfl
    | ok result =>
      dsimp only
      rw [whole, Char.ofNat_toNat]
      rfl

theorem decodeFrom_httpUriEncode (bytes : ∀ c ∈ s, c.toNat < 256) :
    decodeFrom uri (httpUriEncode s path) = .ok s := by
  induction s with
  | nil => rfl
  | cons c s ih =>
    obtain ⟨byte, bytes⟩ := List.forall_mem_cons.mp bytes
    change decodeFrom uri (encodeChar path c ++ httpUriEncode s path) = _
    rw [decodeFrom_encodeChar byte, ih bytes]
    rfl

theorem not_mem_encodeChar {d : Char} (separator : d = '&' ∨ d = '=') : d ∉ encodeChar path c := by
  rw [encodeChar]
  split
  next plain =>
    rw [List.mem_singleton]
    rintro rfl
    rcases separator with rfl | rfl
    · rw [(verbatim_ne path).2.1] at plain
      cases plain
    · rw [(verbatim_ne path).2.2] at plain
      cases plain
  next =>
    have high := (hexValue_hexChar (c.toNat / 16 % 16) (by omega)).2
    have low := (hexValue_hexChar (c.toNat % 16) (by omega)).2
    rw [hexDigits_two]
    rcases separator with rfl | rfl
    · simp [high.1.symm, low.1.symm]
    · simp [high.2.symm, low.2.symm]

theorem not_mem_httpUriEncode {d : Char} (separator : d = '&' ∨ d = '=') :
    d ∉ httpUriEncode s path := by
  intro mem
  obtain ⟨c, -, mem⟩ := List.mem_flatMap.mp mem
  exact not_mem_encodeChar separator mem

end Encode

end HttpUri
