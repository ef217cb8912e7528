import Backrest.JsonParse
import Mathlib.Data.List.Basic

/-!
# Rendering and reading a variant

What is read from the text of a variant is the variant with its objects in the order of their
keys and its integers in the two types that are read. Keys are rendered without escapes, so
this holds of keys that need none.
-/

namespace Json

open Text

section Claimed

/-- The integer that is read from the digits of a number. -/
def number (n : Int) : Scalar :=
  if n < 0 then .int64 (Int64.ofInt n) else .uint64 (UInt64.ofNat n.toNat)

def Scalar.integer : Scalar → Option Int
  | .bool _ => none
  | .int value => some value.toInt
  | .int64 value => some value.toInt
  | .uint value => some value.toNat
  | .uint64 value => some value.toNat

/-- The trees with strings of characters other than the terminator, in which an object has each
key once. -/
inductive ValidTree : Variant → Prop
  | null : ValidTree .null
  | scalar (value : Scalar) : ValidTree (.scalar value)
  | string {value : Str} (characters : '\x00' ∉ value) : ValidTree (.string value)
  | list {items : List Variant} (parts : ∀ v ∈ items, ValidTree v) : ValidTree (.list items)
  | kv {pairs : List (Str × Variant)} (distinct : (pairs.map (·.1)).Nodup)
      (keys : ∀ pair ∈ pairs, pair.1 ≠ [] ∧ '\x00' ∉ pair.1)
      (parts : ∀ pair ∈ pairs, ValidTree pair.2) : ValidTree (.kv pairs)

/-- Every key at any depth is so. -/
inductive EveryKey (holds : Str → Prop) : Variant → Prop
  | null : EveryKey holds .null
  | scalar (value : Scalar) : EveryKey holds (.scalar value)
  | string (value : Str) : EveryKey holds (.string value)
  | list {items : List Variant} (parts : ∀ v ∈ items, EveryKey holds v) :
      EveryKey holds (.list items)
  | kv {pairs : List (Str × Variant)} (keys : ∀ pair ∈ pairs, holds pair.1)
      (parts : ∀ pair ∈ pairs, EveryKey holds pair.2) : EveryKey holds (.kv pairs)

/-- No key has a quote or a backslash. -/
abbrev PlainKeys (v : Variant) : Prop := EveryKey (fun key => '"' ∉ key ∧ '\\' ∉ key) v

/-- Equal up to the type of the integers and the order of the keys. -/
inductive Same : Variant → Variant → Prop
  | null : Same .null .null
  | bool (value : Bool) : Same (.scalar (.bool value)) (.scalar (.bool value))
  | integer {value : Scalar} {n : Int} (reads : value.integer = some n) :
      Same (.scalar value) (.scalar (number n))
  | string (value : Str) : Same (.string value) (.string value)
  | list {items others : List Variant} (length : items.length = others.length)
      (parts : ∀ pair ∈ items.zip others, Same pair.1 pair.2) :
      Same (.list items) (.list others)
  | kv {pairs others : List (Str × Variant)} (distinct : (others.map (·.1)).Nodup)
      (keys : ∀ key, key ∈ others.map (·.1) ↔ key ∈ pairs.map (·.1))
      (parts : ∀ pair ∈ pairs, ∀ other ∈ others, other.1 = pair.1 → Same pair.2 other.2) :
      Same (.kv pairs) (.kv others)

/-- The variant is rendered, what is read from the text is the same, and the text of an object
is what `jsonFromKv` gives. -/
def RoundTrip (v : Variant) : Prop :=
  (∃ json w, jsonFromVar v = .ok json ∧ jsonToVar json = .ok w ∧ Same v w) ∧
    ∀ kv, v = .kv kv → jsonFromVar v = .ok (jsonFromKv kv)

/-- A variant that is a signed integer by itself. -/
def Signed : Variant → Prop
  | .scalar (.int _) => True
  | .scalar (.int64 _) => True
  | _ => False

end Claimed

section Parsed

def Scalar.parsed (value : Scalar) : Scalar :=
  match value.integer with
  | some n => number n
  | none => value

mutual

/-- The variant that is read from the text of a variant. -/
def parsed : Variant → Variant
  | .null => .null
  | .scalar value => .scalar value.parsed
  | .string value => .string value
  | .list items => .list (parsedItems items)
  | .kv pairs => .kv (sortedPairs .null (parsedPairs pairs))

def parsedItems : List Variant → List Variant
  | [] => []
  | value :: items => parsed value :: parsedItems items

def parsedPairs : List (Str × Variant) → List (Str × Variant)
  | [] => []
  | (key, value) :: pairs => (key, parsed value) :: parsedPairs pairs

end

theorem parsedItems_eq (items : List Variant) : parsedItems items = items.map parsed := by
  induction items with
  | nil => rfl
  | cons value items ih => rw [parsedItems, ih, List.map_cons]

theorem parsedPairs_eq (pairs : List (Str × Variant)) :
    parsedPairs pairs = pairs.map fun pair => (pair.1, parsed pair.2) := by
  induction pairs with
  | nil => rfl
  | cons pair pairs ih => rw [parsedPairs, ih, List.map_cons]

end Parsed

section Order

variable {α β : Type}

theorem lookup_map (f : α → β) (pairs : List (Str × α)) (key : Str) :
    (pairs.map fun pair => (pair.1, f pair.2)).lookup key = (pairs.lookup key).map f := by
  induction pairs with
  | nil => rfl
  | cons pair pairs ih =>
    rw [List.map_cons, List.lookup_cons, List.lookup_cons, ih]
    split <;> rfl

/-- To change the values and to sort the keys can change places. -/
theorem sortedPairs_map (f : α → β) (null : α) (pairs : List (Str × α)) :
    sortedPairs (f null) (pairs.map fun pair => (pair.1, f pair.2)) =
      (sortedPairs null pairs).map fun pair => (pair.1, f pair.2) := by
  have keys : (pairs.map fun pair => (pair.1, f pair.2)).map (·.1) = pairs.map (·.1) := by
    rw [List.map_map]
    rfl
  rw [sortedPairs, sortedPairs, keys, List.map_map]
  apply List.map_congr_left
  intro key _
  rw [lookup_map, Option.getD_map]
  rfl

theorem lookup_mem {pairs : List (Str × α)} {key : Str} (mem : key ∈ pairs.map (·.1)) :
    ∃ value, pairs.lookup key = some value ∧ (key, value) ∈ pairs := by
  induction pairs with
  | nil => exact absurd mem List.not_mem_nil
  | cons pair pairs ih =>
    rw [List.lookup_cons]
    by_cases same : key = pair.1
    · subst same
      exact ⟨pair.2, by simp, List.mem_cons_self⟩
    · rw [List.map_cons, List.mem_cons] at mem
      obtain ⟨value, found, inside⟩ := ih (mem.resolve_left same)
      have differ : (key == pair.1) = false := beq_eq_false_iff_ne.mpr same
      exact ⟨value, by rw [differ, found], List.mem_cons_of_mem pair inside⟩

theorem mem_sortedPairs {null : α} {pairs : List (Str × α)} {pair : Str × α}
    (mem : pair ∈ sortedPairs null pairs) : pair ∈ pairs := by
  obtain ⟨key, inside, rfl⟩ := List.mem_map.mp mem
  obtain ⟨value, found, held⟩ := lookup_mem (mem_strLstSort.mp inside)
  rw [found]
  exact held

theorem keys_sortedPairs (null : α) (pairs : List (Str × α)) :
    (sortedPairs null pairs).map (·.1) = strLstSort (pairs.map (·.1)) .asc := by
  rw [sortedPairs, List.map_map]
  exact List.map_id _

theorem nodup_sortedPairs {null : α} {pairs : List (Str × α)}
    (distinct : (pairs.map (·.1)).Nodup) : ((sortedPairs null pairs).map (·.1)).Nodup := by
  rw [keys_sortedPairs]
  exact (strLstSort_perm _ .asc).nodup_iff.mpr distinct

end Order

section Same

theorem scalar_same (value : Scalar) : Same (.scalar value) (.scalar value.parsed) := by
  cases kind : value.integer with
  | some n =>
    rw [Scalar.parsed, kind]
    exact Same.integer kind
  | none =>
    cases value with
    | bool value => exact Same.bool value
    | _ => cases kind

theorem same_parsed (v : Variant) (tree : ValidTree v) : Same v (parsed v) := by
  induction v using Variant.induct with
  | null =>
    rw [parsed]
    exact Same.null
  | scalar value =>
    rw [parsed]
    exact scalar_same value
  | string value =>
    rw [parsed]
    exact Same.string value
  | list items ih =>
    cases tree with
    | list parts =>
      rw [parsed, parsedItems_eq]
      refine Same.list (List.length_map _).symm ?_
      intro pair mem
      rw [← List.map_id' items, List.map_map, List.zip_map'] at mem
      obtain ⟨v, inside, rfl⟩ := List.mem_map.mp mem
      exact ih v inside (parts v inside)
  | kv pairs ih =>
    cases tree with
    | kv distinct keys parts =>
      have names : (parsedPairs pairs).map (·.1) = pairs.map (·.1) := by
        rw [parsedPairs_eq, List.map_map]
        rfl
      rw [parsed]
      refine Same.kv (nodup_sortedPairs (names ▸ distinct)) ?_ ?_
      · intro key
        rw [keys_sortedPairs, names, mem_strLstSort]
      · intro pair mem other found key
        have held := mem_sortedPairs found
        rw [parsedPairs_eq] at held
        obtain ⟨source, inside, rfl⟩ := List.mem_map.mp held
        have same : source = pair := List.inj_on_of_nodup_map distinct inside mem key
        rw [same]
        exact ih pair mem (parts pair mem)

end Same

section Strings

theorem stringLoop_quote (json : Str) : stringLoop ('"' :: json) = .ok ([], json) := by
  rw [stringLoop.eq_def]
  exact if_pos rfl

theorem stringLoop_plain {c : Char} {json : Str} (noQuote : c ≠ '"') (noEscape : c ≠ '\\') :
    stringLoop (c :: json) = (stringLoop json).map fun (result, rest) => (c :: result, rest) := by
  rw [stringLoop.eq_def]
  simp only
  rw [if_neg noQuote, if_neg noEscape]

theorem stringLoop_escaped {e d : Char} {json : Str} (known : escaped e = some d) :
    stringLoop ('\\' :: e :: json) =
      (stringLoop json).map fun (result, rest) => (d :: result, rest) := by
  rw [stringLoop.eq_def]
  simp only
  rw [if_neg (by decide), if_pos trivial, known]

theorem stringLoop_escape (c : Char) (json : Str) :
    stringLoop (escape c ++ json) =
      (stringLoop json).map fun (result, rest) => (c :: result, rest) := by
  unfold escape
  split
  next same => subst same; exact stringLoop_escaped rfl
  next noQuote =>
    split
    next same => subst same; exact stringLoop_escaped rfl
    next noEscape =>
      split
      next same => subst same; exact stringLoop_escaped rfl
      split
      next same => subst same; exact stringLoop_escaped rfl
      split
      next same => subst same; exact stringLoop_escaped rfl
      split
      next same => subst same; exact stringLoop_escaped rfl
      split
      next same => subst same; exact stringLoop_escaped rfl
      exact stringLoop_plain noQuote noEscape

theorem stringLoop_render (value rest : Str) :
    stringLoop (value.flatMap escape ++ '"' :: rest) = .ok (value, rest) := by
  induction value with
  | nil => exact stringLoop_quote rest
  | cons c value ih =>
    rw [List.flatMap_cons, List.append_assoc, stringLoop_escape, ih]
    rfl

/-- A key without a quote or a backslash is read as it is. -/
theorem stringLoop_key {key : Str} (noQuote : '"' ∉ key) (noEscape : '\\' ∉ key) (rest : Str) :
    stringLoop (key ++ '"' :: rest) = .ok (key, rest) := by
  induction key with
  | nil => exact stringLoop_quote rest
  | cons c key ih =>
    rw [List.mem_cons, not_or] at noQuote noEscape
    rw [List.cons_append, stringLoop_plain (Ne.symm noQuote.1) (Ne.symm noEscape.1),
      ih noQuote.2 noEscape.2]
    rfl

end Strings

section Numbers

/-- What follows a number. -/
def Ends (rest : Str) : Prop := ∀ c, rest.head? = some c → c.isDigit = false

theorem takeWhile_digits {digits rest : Str} (all : ∀ c ∈ digits, c.isDigit = true)
    (ends : Ends rest) : (digits ++ rest).takeWhile Char.isDigit = digits ∧
      (digits ++ rest).dropWhile Char.isDigit = rest := by
  have stop : rest.takeWhile Char.isDigit = [] ∧ rest.dropWhile Char.isDigit = rest := by
    cases rest with
    | nil => exact ⟨rfl, rfl⟩
    | cons c rest =>
      have other : ¬ c.isDigit = true := by rw [ends c rfl]; exact Bool.false_ne_true
      exact ⟨List.takeWhile_cons_of_neg other, List.dropWhile_cons_of_neg other⟩
  constructor
  · rw [List.takeWhile_append_of_pos all, stop.1, List.append_nil]
  · rw [List.dropWhile_append_of_pos all, stop.2]

theorem exists_digit (n : Nat) : ∃ c digits, fmtUInt n = c :: digits ∧ c.isDigit = true := by
  have some' : fmtUInt n ≠ [] := Nat.toDigits_ne_nil
  obtain ⟨c, digits, shape⟩ := List.exists_cons_of_ne_nil some'
  exact ⟨c, digits, shape, isDigit_of_mem_fmtUInt (shape ▸ List.mem_cons_self)⟩

theorem ne_of_isDigit {c d : Char} (digit : c.isDigit = true) (other : d.isDigit = false) :
    c ≠ d := by
  rintro rfl
  rw [digit] at other
  cases other

theorem cvtZToInt64_minus {digits : Str} (some' : digits ≠ [])
    (all : ∀ c ∈ digits, c.isDigit = true) (fits : cvtDigits digits < 2 ^ 63 + 1) :
    cvtZToInt64 ('-' :: digits) = .ok (-(cvtDigits digits : Int)) :=
  if_pos ⟨some', List.all_eq_true.mpr all, fits⟩

/-- A number is read from the digits that begin the text. -/
theorem jsonToNumberInternal_digits {digits rest : Str} {c : Char} {later : Str}
    (shape : digits = c :: later) (all : ∀ c ∈ digits, c.isDigit = true) (ends : Ends rest) :
    (cvtDigits digits < 2 ^ 63 + 1 → jsonToNumberInternal none ('-' :: (digits ++ rest)) =
      .ok (.int64 (Int64.ofInt (-(cvtDigits digits : Int))), rest)) ∧
    (cvtDigits digits < 2 ^ 64 → jsonToNumberInternal none (digits ++ rest) =
      .ok (.uint64 (UInt64.ofNat (cvtDigits digits)), rest)) := by
  obtain ⟨taken, left⟩ := takeWhile_digits all ends
  have some' : digits ≠ [] := by rw [shape]; exact List.cons_ne_nil c later
  have digit : c.isDigit = true := all c (shape ▸ List.mem_cons_self)
  have last := all _ (List.getLast_mem some')
  have noSign : digits.getLast some' ≠ '-' := ne_of_isDigit last rfl
  constructor
  · intro fits
    have isLast : ('-' :: digits).getLast? = some (digits.getLast some') := by
      rw [List.getLast?_cons_of_ne_nil some', List.getLast?_eq_some_getLast some']
    have value := cvtZToInt64_minus some' all fits
    simp only [jsonToNumberInternal, List.head?_cons, if_true, List.tail_cons, List.cons_append,
      List.nil_append, taken, left, isLast, Option.some_or, value]
    rfl
  · intro fits
    have isLast : digits.getLast? = some (digits.getLast some') :=
      List.getLast?_eq_some_getLast some'
    have first : (digits ++ rest).head? ≠ some '-' := by
      rw [shape, List.cons_append, List.head?_cons]
      exact fun same => ne_of_isDigit digit rfl (Option.some.inj same)
    have value : Convert.cvtZToUInt64 digits = .ok (cvtDigits digits) :=
      (Convert.cvtZToUInt64_ok_iff shape digit).mpr ⟨all, fits, rfl⟩
    simp only [jsonToNumberInternal, if_neg first, List.nil_append, taken, left, isLast,
      Option.some_or, value]
    rfl

theorem jsonToNumberInternal_fmtInt {n : Int} (low : -2 ^ 63 ≤ n) (high : n < 2 ^ 64)
    {rest : Str} (ends : Ends rest) :
    jsonToNumberInternal none (fmtInt n ++ rest) = .ok (number n, rest) := by
  obtain ⟨c, later, shape, digit⟩ := exists_digit n.natAbs
  have read := jsonToNumberInternal_digits shape (fun c mem => isDigit_of_mem_fmtUInt mem) ends
  rw [cvtDigits_fmtUInt] at read
  rw [fmtInt, number]
  by_cases negative : n < 0
  · have same : -(n.natAbs : Int) = n := by omega
    rw [if_pos negative, if_pos negative, List.cons_append, read.1 (by omega), same]
  · have same : n.natAbs = n.toNat := by omega
    rw [if_neg negative, if_neg negative, read.2 (by omega), same]

end Numbers

section Dispatch

variable {fuel : Nat} {json : Str}

theorem value_null : jsonToVarInternal (fuel + 1) ("null".toList ++ json) =
    .ok (.null, jsonConsumeWhiteSpace json) := rfl

theorem value_bool (value : Bool) : jsonToVarInternal (fuel + 1) (jsonFromBool value ++ json) =
    .ok (.scalar (.bool value), jsonConsumeWhiteSpace json) := by
  cases value <;> rfl

theorem value_string : jsonToVarInternal (fuel + 1) ('"' :: json) =
    asVariant .string (stringLoop json) := rfl

theorem value_list : jsonToVarInternal (fuel + 1) ('[' :: json) =
    asVariant .list (jsonToVarLstInternal fuel ('[' :: json)) := rfl

theorem value_kv : jsonToVarInternal (fuel + 1) ('\x7b' :: json) =
    asVariant .kv (jsonToKvInternal fuel ('\x7b' :: json)) := rfl

theorem isWhite_of_digit {c : Char} (digit : c.isDigit = true) : isWhite c = false := by
  have space := ne_of_isDigit digit (d := ' ') rfl
  have tab := ne_of_isDigit digit (d := '\t') rfl
  have line := ne_of_isDigit digit (d := '\n') rfl
  have back := ne_of_isDigit digit (d := '\r') rfl
  simp [isWhite, space, tab, line, back]

theorem consume_head {c : Char} (solid : isWhite c = false) :
    jsonConsumeWhiteSpace (c :: json) = c :: json :=
  List.dropWhile_cons_of_neg (by rw [solid]; exact Bool.false_ne_true)

theorem value_number {c : Char} (first : c = '-' ∨ c.isDigit = true) :
    jsonToVarInternal (fuel + 1) (c :: json) =
      asVariant .scalar (jsonToNumberInternal none (c :: json)) := by
  have solid : isWhite c = false := by
    rcases first with rfl | digit
    · rfl
    · exact isWhite_of_digit digit
  have noQuote : c ≠ '"' := by
    rcases first with rfl | digit
    · decide
    · exact ne_of_isDigit digit rfl
  rw [jsonToVarInternal, consume_head solid]
  simp only
  rw [if_neg noQuote, if_pos first]

end Dispatch

section Values

/-- The text of the variant is read wherever it stands. -/
def Reads (v : Variant) : Prop :=
  ∀ fuel rest, 3 * (varSub v).length ≤ fuel → Ends rest →
    jsonToVarInternal fuel (varSub v ++ rest) = .ok (parsed v, jsonConsumeWhiteSpace rest)

theorem fmtInt_head (n : Int) : ∃ c t, fmtInt n = c :: t ∧ (c = '-' ∨ c.isDigit = true) := by
  obtain ⟨c, digits, shape, digit⟩ := exists_digit n.natAbs
  rw [fmtInt]
  split
  · exact ⟨'-', fmtUInt n.natAbs, rfl, Or.inl rfl⟩
  · exact ⟨c, digits, shape, Or.inr digit⟩

theorem varSub_scalar (value : Scalar) : (∃ b, value = .bool b) ∨
    ∃ n, value.integer = some n ∧ -2 ^ 63 ≤ n ∧ n < 2 ^ 64 ∧
      varSub (.scalar value) = fmtInt n := by
  cases value with
  | bool b => exact Or.inl ⟨b, rfl⟩
  | int n =>
    have low := n.le_toInt
    have high := n.toInt_lt
    exact Or.inr ⟨n.toInt, rfl, by omega, by omega, by rw [varSub]; rfl⟩
  | int64 n =>
    have low := n.le_toInt
    have high := n.toInt_lt
    exact Or.inr ⟨n.toInt, rfl, low, by omega, by rw [varSub]; rfl⟩
  | uint n =>
    have high := n.toNat_lt
    refine Or.inr ⟨n.toNat, rfl, by omega, by omega, ?_⟩
    rw [varSub, fmtInt, if_neg (by omega)]
    rfl
  | uint64 n =>
    have high := n.toNat_lt
    refine Or.inr ⟨n.toNat, rfl, by omega, by omega, ?_⟩
    rw [varSub, fmtInt, if_neg (by omega)]
    rfl

/-- A value begins with a character that no loop skips or stops at. -/
theorem varSub_head (v : Variant) :
    ∃ c t, varSub v = c :: t ∧ isWhite c = false ∧ c ≠ ',' ∧ c ≠ ']' := by
  cases v with
  | null => exact ⟨'n', _, by rw [varSub]; rfl, by decide⟩
  | scalar value =>
    rcases varSub_scalar value with ⟨b, rfl⟩ | ⟨n, -, -, -, text⟩
    · rw [varSub]
      cases b with
      | true => exact ⟨'t', _, rfl, by decide⟩
      | false => exact ⟨'f', _, rfl, by decide⟩
    · obtain ⟨c, t, shape, first⟩ := fmtInt_head n
      refine ⟨c, t, by rw [text, shape], ?_⟩
      rcases first with rfl | digit
      · decide
      · exact ⟨isWhite_of_digit digit, ne_of_isDigit digit rfl, ne_of_isDigit digit rfl⟩
  | string value => exact ⟨'"', _, by rw [varSub]; rfl, by decide⟩
  | list items => exact ⟨'[', _, by rw [varSub]; rfl, by decide⟩
  | kv pairs => exact ⟨'\x7b', _, by rw [varSub]; rfl, by decide⟩

theorem reads_scalar (value : Scalar) : Reads (.scalar value) := by
  intro fuel rest enough ends
  cases fuel with
  | zero =>
    obtain ⟨c, t, shape, -⟩ := varSub_head (.scalar value)
    rw [shape, List.length_cons] at enough
    omega
  | succ fuel =>
    rcases varSub_scalar value with ⟨b, rfl⟩ | ⟨n, integer, low, high, text⟩
    · rw [varSub, value_bool, parsed]
      rfl
    · obtain ⟨c, t, shape, first⟩ := fmtInt_head n
      have number := jsonToNumberInternal_fmtInt low high ends
      rw [shape, List.cons_append] at number
      rw [text, shape, List.cons_append, value_number first, number, parsed, Scalar.parsed, integer]
      rfl

theorem reads_string (value : Str) : Reads (.string value) := by
  intro fuel rest enough ends
  cases fuel with
  | zero => simp [varSub, jsonFromStrInternal] at enough
  | succ fuel =>
    have text : varSub (.string value) ++ rest =
        '"' :: (value.flatMap escape ++ '"' :: rest) := by
      rw [varSub, jsonFromStrInternal]
      simp
    rw [text, value_string, stringLoop_render, parsed]
    rfl

end Values

section Lists

theorem skipComma_varSub {comma : Str} (sep : comma = [] ∨ comma = [',']) (v : Variant)
    (json : Str) : skipComma (comma ++ (varSub v ++ json)) = varSub v ++ json := by
  obtain ⟨c, t, shape, solid, noComma, -⟩ := varSub_head v
  rw [shape, List.cons_append]
  rcases sep with rfl | rfl
  · have other : (c :: (t ++ json)).head? ≠ some ',' :=
      fun same => noComma (Option.some.inj same)
    rw [List.nil_append, skipComma, if_neg other]
  · rw [skipComma]
    exact consume_head solid

theorem varLstLoop_render (v : Variant) (vs : List Variant) (read : ∀ w ∈ v :: vs, Reads w)
    {comma : Str} (sep : comma = [] ∨ comma = [',']) {fuel : Nat}
    (enough : 3 * (varSub v ++ vs.flatMap fun w => ',' :: varSub w).length + 1 ≤ fuel)
    (result : List Variant) (rest : Str) :
    varLstLoop fuel
        (comma ++ (varSub v ++ ((vs.flatMap fun w => ',' :: varSub w) ++ ']' :: rest))) result =
      .ok (result ++ (v :: vs).map parsed, ']' :: rest) := by
  induction vs generalizing v comma fuel result with
  | nil =>
    cases fuel with
    | zero => omega
    | succ fuel =>
      have value := read v List.mem_cons_self fuel (']' :: rest) (by simp at enough; omega)
        (by rintro c ⟨⟩; rfl)
      rw [varLstLoop, skipComma_varSub sep, List.flatMap_nil, List.nil_append, value]
      rfl
  | cons w vs ih =>
    cases fuel with
    | zero => omega
    | succ fuel =>
      rw [List.length_append, List.flatMap_cons, List.length_append, List.length_cons] at enough
      have value := read v List.mem_cons_self fuel
        (((w :: vs).flatMap fun w => ',' :: varSub w) ++ ']' :: rest) (by omega)
        (by rintro c ⟨⟩; rfl)
      have left : 3 * (varSub w ++ vs.flatMap fun w => ',' :: varSub w).length + 1 ≤ fuel := by
        rw [List.length_append]
        omega
      have later := ih w (fun u mem => read u (List.mem_cons_of_mem v mem)) (Or.inr rfl) left
        (result ++ [parsed v])
      rw [varLstLoop, skipComma_varSub sep, value]
      rw [List.singleton_append, List.append_assoc, List.singleton_append] at later
      rw [List.flatMap_cons, List.append_assoc, List.cons_append]
      exact later

theorem listText_eq (v : Variant) (vs : List Variant) :
    listText (varSubs (v :: vs)) =
      '[' :: (varSub v ++ ((vs.flatMap fun w => ',' :: varSub w) ++ [']'])) := by
  rw [listText, varSubs_eq, List.map_cons, strLstJoin_cons, List.flatMap_map]
  simp

theorem reads_list {items : List Variant} (read : ∀ v ∈ items, Reads v) :
    Reads (.list items) := by
  intro fuel rest enough ends
  rw [varSub] at enough ⊢
  cases items with
  | nil =>
    have size : (listText (varSubs [])).length = 2 := rfl
    obtain ⟨fuel, rfl⟩ : ∃ k, fuel = k + 2 := ⟨fuel - 2, by omega⟩
    rfl
  | cons v vs =>
    rw [listText_eq] at enough ⊢
    rw [List.length_cons, List.length_append, List.length_append, List.length_singleton] at enough
    obtain ⟨fuel, rfl⟩ : ∃ k, fuel = k + 2 := ⟨fuel - 2, by omega⟩
    obtain ⟨c, t, shape, solid, -, noBracket⟩ := varSub_head v
    have short : 3 * (varSub v ++ vs.flatMap fun w => ',' :: varSub w).length + 1 ≤ fuel := by
      rw [List.length_append]
      omega
    have loop := varLstLoop_render v vs read (Or.inl rfl) short [] rest
    have open' : (varSub v ++ ((vs.flatMap fun w => ',' :: varSub w) ++ ']' :: rest)).head? ≠
        some ']' := by
      rw [shape, List.cons_append, List.head?_cons]
      exact fun same => noBracket (Option.some.inj same)
    have skipped : jsonConsumeWhiteSpace
        (varSub v ++ ((vs.flatMap fun w => ',' :: varSub w) ++ ']' :: rest)) =
        varSub v ++ ((vs.flatMap fun w => ',' :: varSub w) ++ ']' :: rest) := by
      rw [shape, List.cons_append]
      exact consume_head solid
    rw [List.nil_append, List.nil_append] at loop
    rw [List.cons_append, List.append_assoc, List.append_assoc, List.singleton_append, value_list,
      jsonToVarLstInternal, List.head?_cons, if_pos rfl, List.tail_cons, skipped]
    simp only
    rw [if_neg open', loop, parsed, parsedItems_eq]
    rfl

end Lists

section Objects

/-- A key and its value in the text of an object. -/
def entryText (pair : Str × Variant) : Str := '"' :: (pair.1 ++ '"' :: ':' :: varSub pair.2)

theorem kvPut_fresh {kv : List (Str × Variant)} {key : Str} {value : Variant}
    (fresh : key ∉ kv.map (·.1)) : kvPut kv key value = kv ++ [(key, value)] := by
  induction kv with
  | nil => rfl
  | cons pair kv ih =>
    rw [List.map_cons, List.mem_cons, not_or] at fresh
    rw [kvPut, if_neg (Ne.symm fresh.1), ih fresh.2]
    rfl

theorem jsonToStrInternal_entry {comma : Str} (sep : comma = [] ∨ comma = [','])
    {pair : Str × Variant} (plain : '"' ∉ pair.1 ∧ '\\' ∉ pair.1) (json : Str) :
    jsonToStrInternal (skipComma (comma ++ (entryText pair ++ json))) =
      .ok (pair.1, ':' :: (varSub pair.2 ++ json)) := by
  have text : entryText pair ++ json =
      '"' :: (pair.1 ++ '"' :: (':' :: (varSub pair.2 ++ json))) := by simp [entryText]
  have skipped : skipComma (comma ++ (entryText pair ++ json)) =
      '"' :: (pair.1 ++ '"' :: (':' :: (varSub pair.2 ++ json))) := by
    rw [text]
    rcases sep with rfl | rfl
    · rfl
    · rfl
  rw [skipped, jsonToStrInternal]
  exact stringLoop_key plain.1 plain.2 _

theorem consume_varSub (v : Variant) (json : Str) :
    jsonConsumeWhiteSpace (varSub v ++ json) = varSub v ++ json := by
  obtain ⟨c, t, shape, solid, -⟩ := varSub_head v
  rw [shape, List.cons_append]
  exact consume_head solid

theorem kvLoop_render (pair : Str × Variant) (pairs : List (Str × Variant))
    (read : ∀ p ∈ pair :: pairs, Reads p.2)
    (plain : ∀ p ∈ pair :: pairs, '"' ∉ p.1 ∧ '\\' ∉ p.1)
    {comma : Str} (sep : comma = [] ∨ comma = [',']) {fuel : Nat}
    (enough : 3 * (entryText pair ++ pairs.flatMap fun p => ',' :: entryText p).length + 1 ≤ fuel)
    (result : List (Str × Variant)) (rest : Str)
    (distinct : (result.map (·.1) ++ (pair :: pairs).map (·.1)).Nodup) :
    kvLoop fuel (comma ++ (entryText pair ++
        ((pairs.flatMap fun p => ',' :: entryText p) ++ '\x7d' :: rest))) result =
      .ok (result ++ (pair :: pairs).map fun p => (p.1, parsed p.2), '\x7d' :: rest) := by
  induction pairs generalizing pair comma fuel result with
  | nil =>
    cases fuel with
    | zero => omega
    | succ fuel =>
      have short : 3 * (varSub pair.2).length ≤ fuel := by
        simp [entryText] at enough
        omega
      have value := read pair List.mem_cons_self fuel ('\x7d' :: rest) short
        (by rintro c ⟨⟩; rfl)
      have fresh : pair.1 ∉ result.map (·.1) := by
        rw [List.map_cons, List.map_nil] at distinct
        exact fun mem => (List.disjoint_of_nodup_append distinct) mem List.mem_cons_self
      rw [kvLoop, List.flatMap_nil, List.nil_append, jsonToStrInternal_entry sep
        (plain pair List.mem_cons_self)]
      simp only
      rw [consume_head rfl]
      simp only
      rw [consume_varSub, value]
      simp only
      rw [kvPut_fresh fresh]
      rfl
  | cons next pairs ih =>
    cases fuel with
    | zero => omega
    | succ fuel =>
      rw [List.length_append, List.flatMap_cons, List.length_append, List.length_cons] at enough
      have short : 3 * (varSub pair.2).length ≤ fuel := by
        have size : (varSub pair.2).length ≤ (entryText pair).length := by
          simp [entryText]
          omega
        omega
      have left : 3 * (entryText next ++ pairs.flatMap fun p => ',' :: entryText p).length + 1 ≤
          fuel := by
        rw [List.length_append]
        omega
      have value := read pair List.mem_cons_self fuel
        (((next :: pairs).flatMap fun p => ',' :: entryText p) ++ '\x7d' :: rest) short
        (by rintro c ⟨⟩; rfl)
      have fresh : pair.1 ∉ result.map (·.1) := by
        rw [List.map_cons] at distinct
        exact fun mem => (List.disjoint_of_nodup_append distinct) mem List.mem_cons_self
      have distinct' : ((result ++ [(pair.1, parsed pair.2)]).map (·.1) ++
          (next :: pairs).map (·.1)).Nodup := by
        rw [List.map_append, List.append_assoc]
        exact distinct
      have later := ih next (fun p mem => read p (List.mem_cons_of_mem pair mem))
        (fun p mem => plain p (List.mem_cons_of_mem pair mem)) (Or.inr rfl) left
        (result ++ [(pair.1, parsed pair.2)]) distinct'
      rw [kvLoop, jsonToStrInternal_entry sep (plain pair List.mem_cons_self)]
      simp only
      rw [consume_head rfl]
      simp only
      rw [consume_varSub, value]
      simp only
      rw [kvPut_fresh fresh]
      rw [List.singleton_append, List.append_assoc, List.singleton_append] at later
      rw [List.flatMap_cons, List.append_assoc, List.cons_append]
      exact later

/-- The text of an object, with its keys in order. -/
theorem kvText_eq (pairs : List (Str × Variant)) : kvText (kvValues pairs) =
    '\x7b' :: strLstJoin ((sortedPairs .null pairs).map entryText) [','] ++ ['\x7d'] := by
  have values : kvValues pairs = pairs.map fun pair => (pair.1, varSub pair.2) := by
    rw [kvValues_eq]
    exact List.map_congr_left fun pair _ => by rw [(positions_agree pair.2).1]
  have null : "null".toList = varSub .null := by rw [varSub]
  rw [kvText, values, null, sortedPairs_map, List.map_map]
  congr 4
  funext pair
  simp [pairText, entryText]

theorem reads_kv {pairs : List (Str × Variant)} (read : ∀ pair ∈ pairs, Reads pair.2)
    (plain : ∀ pair ∈ pairs, '"' ∉ pair.1 ∧ '\\' ∉ pair.1)
    (distinct : (pairs.map (·.1)).Nodup) : Reads (.kv pairs) := by
  intro fuel rest enough ends
  have names : (parsedPairs pairs) = pairs.map fun pair => (pair.1, parsed pair.2) :=
    parsedPairs_eq pairs
  have null : Variant.null = parsed .null := by rw [parsed]
  have result : parsed (.kv pairs) =
      .kv ((sortedPairs .null pairs).map fun pair => (pair.1, parsed pair.2)) := by
    rw [parsed, names]
    nth_rewrite 1 [null]
    rw [sortedPairs_map]
  have readSorted : ∀ pair ∈ sortedPairs .null pairs, Reads pair.2 :=
    fun pair mem => read pair (mem_sortedPairs mem)
  have plainSorted : ∀ pair ∈ sortedPairs .null pairs, '"' ∉ pair.1 ∧ '\\' ∉ pair.1 :=
    fun pair mem => plain pair (mem_sortedPairs mem)
  have distinctSorted := @nodup_sortedPairs Variant .null pairs distinct
  rw [varSub, kvText_eq] at enough ⊢
  rw [result]
  cases sorted : sortedPairs .null pairs with
  | nil =>
    rw [sorted] at enough
    have size : ('\x7b' :: strLstJoin (List.map entryText []) [','] ++ ['\x7d']).length = 2 := rfl
    obtain ⟨fuel, rfl⟩ : ∃ k, fuel = k + 2 := ⟨fuel - 2, by omega⟩
    rfl
  | cons pair others =>
    rw [sorted] at enough readSorted plainSorted distinctSorted
    have joined : strLstJoin ((pair :: others).map entryText) [','] =
        entryText pair ++ others.flatMap fun p => ',' :: entryText p := by
      rw [List.map_cons, strLstJoin_cons, List.flatMap_map]
    rw [joined] at enough ⊢
    rw [List.length_append, List.length_cons, List.length_singleton] at enough
    obtain ⟨fuel, rfl⟩ : ∃ k, fuel = k + 2 := ⟨fuel - 2, by omega⟩
    have short : 3 * (entryText pair ++ others.flatMap fun p => ',' :: entryText p).length + 1 ≤
        fuel := by omega
    have loop := kvLoop_render pair others readSorted plainSorted (Or.inl rfl) short [] rest
      distinctSorted
    rw [List.nil_append, List.nil_append] at loop
    have whole : '\x7b' :: (entryText pair ++ others.flatMap fun p => ',' :: entryText p) ++
        ['\x7d'] ++ rest = '\x7b' :: (entryText pair ++
          ((others.flatMap fun p => ',' :: entryText p) ++ '\x7d' :: rest)) := by simp
    have skipped : jsonConsumeWhiteSpace (entryText pair ++
        ((others.flatMap fun p => ',' :: entryText p) ++ '\x7d' :: rest)) =
        entryText pair ++ ((others.flatMap fun p => ',' :: entryText p) ++ '\x7d' :: rest) := by
      rw [entryText, List.cons_append]
      exact consume_head (by decide)
    have open' : (entryText pair ++
        ((others.flatMap fun p => ',' :: entryText p) ++ '\x7d' :: rest)).head? ≠ some '\x7d' := by
      rw [entryText, List.cons_append, List.head?_cons]
      exact fun same => absurd (Option.some.inj same) (by decide)
    rw [whole, value_kv, jsonToKvInternal, List.tail_cons, skipped]
    rw [if_neg open', loop]
    rfl

end Objects

section RoundTrip

theorem reads_null : Reads .null := by
  intro fuel rest enough ends
  rw [varSub] at enough ⊢
  cases fuel with
  | zero => exact absurd enough (by decide)
  | succ fuel =>
    rw [value_null, parsed]

/-- The parser reads what the renderer writes, in every position and at every depth. -/
theorem reads_variant (v : Variant) (tree : ValidTree v) (plain : PlainKeys v) : Reads v := by
  induction v using Variant.induct with
  | null => exact reads_null
  | scalar value => exact reads_scalar value
  | string value => exact reads_string value
  | list items ih =>
    cases tree with
    | list trees =>
      cases plain with
      | list plains => exact reads_list fun v mem => ih v mem (trees v mem) (plains v mem)
  | kv pairs ih =>
    cases tree with
    | kv distinct keys trees =>
      cases plain with
      | kv plainKeys plains =>
        exact reads_kv (fun pair mem => ih pair mem (trees pair mem) (plains pair mem)) plainKeys
          distinct

theorem jsonFromVar_eq {v : Variant} (single : ¬ Signed v) : jsonFromVar v = .ok (varSub v) := by
  cases v with
  | null => rw [jsonFromVar, varSub]
  | scalar value =>
    cases value with
    | bool value => rw [jsonFromVar, varSub]
    | int value => exact absurd trivial single
    | int64 value => exact absurd trivial single
    | uint value => rw [jsonFromVar, varSub]
    | uint64 value => rw [jsonFromVar, varSub]
  | string value => rw [jsonFromVar, varSub]
  | list items => rw [jsonFromVar, varSub]
  | kv pairs => rw [jsonFromVar, varSub]

theorem jsonToVar_varSub {v : Variant} (reads : Reads v) :
    jsonToVar (varSub v) = .ok (parsed v) := by
  have whole := reads (3 * (varSub v).length + 1) [] (by omega) (by rintro c ⟨⟩)
  rw [List.append_nil] at whole
  rw [jsonToVar, whole]
  rfl

/-- A tree with plain keys is rendered and read back, unless it is a signed integer by itself,
which is not rendered. -/
theorem jsonToVar_jsonFromVar {v : Variant} (tree : ValidTree v) (plain : PlainKeys v) :
    (¬ Signed v → RoundTrip v) ∧
      (Signed v →
        jsonFromVar v = .error ⟨.jsonFormatError, "variant type is invalid".toList⟩) := by
  constructor
  · intro single
    refine ⟨⟨varSub v, parsed v, jsonFromVar_eq single, ?_, same_parsed v tree⟩, ?_⟩
    · exact jsonToVar_varSub (reads_variant v tree plain)
    · rintro kv rfl
      rw [jsonFromVar, jsonFromKv]
  · intro signed
    cases v with
    | scalar value =>
      cases value with
      | int value => rw [jsonFromVar] <;> nofun
      | int64 value => rw [jsonFromVar] <;> nofun
      | _ => exact signed.elim
    | _ => exact signed.elim

/-- A signed integer in a list, and an object whose keys change their order. -/
def exampleTree : Variant :=
  .list [.scalar (.int (-1)), .kv [("b".toList, .list [.null]), ("a".toList, .string "\"".toList)]]

theorem exampleTree_valid : ValidTree exampleTree := by
  refine .list (List.forall_mem_cons.mpr ⟨.scalar _, List.forall_mem_singleton.mpr ?_⟩)
  refine .kv (by decide) (by decide)
    (List.forall_mem_cons.mpr ⟨?_, List.forall_mem_singleton.mpr ?_⟩)
  · exact .list (List.forall_mem_singleton.mpr .null)
  · exact .string (by decide)

theorem exampleTree_plain : PlainKeys exampleTree := by
  refine .list (List.forall_mem_cons.mpr ⟨.scalar _, List.forall_mem_singleton.mpr ?_⟩)
  refine .kv ?_ (List.forall_mem_cons.mpr ⟨?_, List.forall_mem_singleton.mpr ?_⟩)
  · have a : '"' ∉ "a".toList ∧ '\\' ∉ "a".toList := by decide
    have b : '"' ∉ "b".toList ∧ '\\' ∉ "b".toList := by decide
    exact List.forall_mem_cons.mpr ⟨b, List.forall_mem_singleton.mpr a⟩
  · exact .list (List.forall_mem_singleton.mpr .null)
  · exact .string _

theorem jsonToVar_jsonFromVar_example : RoundTrip exampleTree :=
  (jsonToVar_jsonFromVar exampleTree_valid exampleTree_plain).1 id

/-- What follows the empty key that is read for the key of one quote. -/
def behindKey : Str := ['"', ':', 'n', 'u', 'l', 'l', '\x7d']

theorem kvLoop_quote (fuel : Nat) : kvLoop (fuel + 1) ('"' :: '"' :: behindKey) [] =
    .error (expectedAt "':'".toList behindKey) := by
  have key : jsonToStrInternal (skipComma ('"' :: '"' :: behindKey)) = .ok ([], behindKey) :=
    stringLoop_quote behindKey
  have space : jsonConsumeWhiteSpace behindKey = '"' :: behindKey.tail := rfl
  rw [kvLoop, key]
  simp only [space]
  split
  next same => exact absurd (List.cons.inj same).1 (by decide)
  next => rfl

theorem value_quote (fuel : Nat) :
    jsonToVarInternal (fuel + 3) ('\x7b' :: '"' :: '"' :: behindKey) =
      .error (expectedAt "':'".toList behindKey) := by
  have object : jsonToKvInternal (fuel + 2) ('\x7b' :: '"' :: '"' :: behindKey) =
      .error (expectedAt "':'".toList behindKey) := by
    have space : jsonConsumeWhiteSpace ('"' :: '"' :: behindKey) = '"' :: '"' :: behindKey := rfl
    rw [jsonToKvInternal, List.tail_cons, space, if_neg (by decide), kvLoop_quote]
  rw [value_kv, object]
  rfl

/-- A signed integer by itself is not rendered, and a quote in a key ends it too early. -/
theorem jsonToVar_jsonFromVar_fails :
    (ValidTree (.scalar (.int 1)) ∧ ¬ RoundTrip (.scalar (.int 1))) ∧
      ValidTree (.kv [(['"'], .null)]) ∧ ¬ RoundTrip (.kv [(['"'], .null)]) := by
  have valid : ValidTree (.kv [(['"'], .null)]) :=
    .kv (by decide) (by decide) (List.forall_mem_singleton.mpr .null)
  refine ⟨⟨.scalar _, ?_⟩, valid, ?_⟩
  · rintro ⟨⟨json, w, rendered, -⟩, -⟩
    rw [jsonFromVar] at rendered
    · cases rendered
    · nofun
    · nofun
    · nofun
  · rintro ⟨⟨json, w, rendered, read, -⟩, -⟩
    have sorted : sortedPairs .null [(['"'], .null)] = [(['"'], Variant.null)] := by
      rw [sortedPairs, List.map_singleton, strLstSort_asc_eq_self (List.pairwise_singleton _ _)]
      rfl
    have text : jsonFromVar (.kv [(['"'], .null)]) = .ok ('\x7b' :: '"' :: '"' :: behindKey) := by
      rw [jsonFromVar, kvText_eq, sorted, List.map_singleton, entryText, varSub]
      rfl
    rw [text] at rendered
    cases rendered
    have size : ('\x7b' :: '"' :: '"' :: behindKey).length = 10 := rfl
    rw [jsonToVar, size, value_quote 28] at read
    cases read

end RoundTrip

end Json
