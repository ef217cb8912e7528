import Backrest.JsonRoundTrip
import Mathlib.Data.List.TakeWhile

/-!
# Quotes in JSON text

A text that the parser accepts has its quotes in pairs, and no backslash or equals sign stands
outside of them. A text that the renderer writes keeps this when it is read from inside a
string, so the two cannot be put together at an equals sign.
-/

namespace Json

open Text

inductive Quote where
  | outside
  | inside
  | escape
  deriving DecidableEq

def scanStep : Quote → Char → Option Quote
  | .outside, c =>
    if c = '"' then some .inside else if c = '\\' ∨ c = '=' then none else some .outside
  | .inside, c => if c = '"' then some .outside else if c = '\\' then some .escape else some .inside
  | .escape, c => if c = '=' then none else some .inside

def scan (state : Quote) : Str → Option Quote
  | [] => some state
  | c :: text =>
    match scanStep state c with
    | none => none
    | some next => scan next text

theorem scan_append (state : Quote) (front back : Str) :
    scan state (front ++ back) = (scan state front).bind fun next => scan next back := by
  induction front generalizing state with
  | nil => rfl
  | cons c front ih =>
    rw [List.cons_append, scan, scan]
    cases scanStep state c with
    | none => rfl
    | some next => exact ih next

section Consumed

/-- What was read of the text has its quotes in pairs. -/
def Consumed (json rest : Str) : Prop :=
  ∃ text, json = text ++ rest ∧ scan .outside text = some .outside

theorem Consumed.refl (json : Str) : Consumed json json := ⟨[], rfl, rfl⟩

theorem Consumed.trans {json middle rest : Str} (first : Consumed json middle)
    (second : Consumed middle rest) : Consumed json rest := by
  obtain ⟨front, rfl, scanned⟩ := first
  obtain ⟨back, rfl, scanned'⟩ := second
  refine ⟨front ++ back, (List.append_assoc _ _ _).symm, ?_⟩
  rw [scan_append, scanned]
  exact scanned'

/-- A character that changes nothing outside of a string. -/
def plain (c : Char) : Bool := c ≠ '"' && c ≠ '\\' && c ≠ '='

theorem scanStep_plain {c : Char} (isPlain : plain c = true) :
    scanStep .outside c = some .outside := by
  simp only [plain, Bool.and_eq_true, decide_eq_true_eq] at isPlain
  have other : ¬ (c = '\\' ∨ c = '=') := not_or.mpr ⟨isPlain.1.2, isPlain.2⟩
  rw [scanStep, if_neg isPlain.1.1, if_neg other]

theorem scan_plain {text : Str} (allPlain : text.all plain = true) :
    scan .outside text = some .outside := by
  induction text with
  | nil => rfl
  | cons c text ih =>
    rw [List.all_cons, Bool.and_eq_true] at allPlain
    rw [scan, scanStep_plain allPlain.1]
    exact ih allPlain.2

theorem Consumed.append {text : Str} (allPlain : text.all plain = true) (rest : Str) :
    Consumed (text ++ rest) rest := ⟨text, rfl, scan_plain allPlain⟩

theorem Consumed.tail {json : Str} {c : Char} (head : json.head? = some c)
    (isPlain : plain c = true) : Consumed json json.tail := by
  cases json with
  | nil => cases head
  | cons d json =>
    cases head
    exact Consumed.append (List.all_eq_true.mpr (List.forall_mem_singleton.mpr isPlain)) json

theorem plain_of_isWhite {c : Char} (white : isWhite c = true) : plain c = true := by
  simp only [isWhite, Bool.or_eq_true, decide_eq_true_eq] at white
  rcases white with ((rfl | rfl) | rfl) | rfl <;> rfl

theorem plain_of_isDigit {c : Char} (digit : c.isDigit = true) : plain c = true := by
  have quote : c ≠ '"' := ne_of_isDigit digit rfl
  have back : c ≠ '\\' := ne_of_isDigit digit rfl
  have equal : c ≠ '=' := ne_of_isDigit digit rfl
  simp [plain, quote, back, equal]

theorem consumed_dropWhile {p : Char → Bool} (all : ∀ c, p c = true → plain c = true)
    (json : Str) : Consumed json (json.dropWhile p) := by
  refine ⟨json.takeWhile p, List.takeWhile_append_dropWhile.symm, scan_plain ?_⟩
  exact List.all_eq_true.mpr fun c mem => all c (List.mem_takeWhile_imp mem)

theorem consumed_white (json : Str) : Consumed json (jsonConsumeWhiteSpace json) :=
  consumed_dropWhile (fun _ => plain_of_isWhite) json

theorem consumed_drop {text json : Str} (starts : text <+: json)
    (allPlain : text.all plain = true) : Consumed json (json.drop text.length) := by
  obtain ⟨rest, rfl⟩ := starts
  rw [List.drop_left]
  exact Consumed.append allPlain rest

theorem consumed_skipComma (json : Str) : Consumed json (skipComma json) := by
  rw [skipComma]
  split
  next head => exact (Consumed.tail head rfl).trans (consumed_white _)
  next => exact Consumed.refl json

end Consumed

section Parts

variable {json rest : Str} {α : Type}

theorem consumed_bool {value : Bool} (parsed : jsonToBoolInternal json = .ok (value, rest)) :
    Consumed json rest := by
  rw [jsonToBoolInternal] at parsed
  split at parsed
  next starts =>
    cases parsed
    exact consumed_drop starts rfl
  next =>
    split at parsed
    next starts =>
      cases parsed
      exact consumed_drop starts rfl
    next => cases parsed

theorem map_ok {β : Type} {f : α → β} {parsed : Except Fault α} {b : β}
    (result : parsed.map f = .ok b) : ∃ a, parsed = .ok a ∧ f a = b := by
  cases parsed with
  | error fault => cases result
  | ok a => exact ⟨a, rfl, Except.ok.inj result⟩

theorem consumed_number {before : Option Char} {value : Scalar}
    (parsed : jsonToNumberInternal before json = .ok (value, rest)) : Consumed json rest := by
  have unsigned : Consumed json (if json.head? = some '-' then json.tail else json) := by
    split
    next head => exact Consumed.tail head rfl
    next => exact Consumed.refl json
  have digits := unsigned.trans
    (consumed_dropWhile (fun _ => plain_of_isDigit) (if json.head? = some '-' then json.tail else json))
  rw [jsonToNumberInternal] at parsed
  split at parsed
  · cases parsed
  · cases parsed
  · split at parsed
    next head =>
      obtain ⟨n, -, pair⟩ := map_ok parsed
      cases pair
      rw [if_pos head] at digits
      exact digits
    next noSign =>
      obtain ⟨n, -, pair⟩ := map_ok parsed
      cases pair
      rw [if_neg noSign] at digits
      exact digits

/-- A digit of an escape is no quote and no backslash. -/
theorem scan_digit {c : Char} (digit : (HttpUri.hexValue c).isSome = true) (text : Str) :
    scan .inside (c :: text) = scan .inside text := by
  have quote : c ≠ '"' := by
    rintro rfl
    cases digit
  have back : c ≠ '\\' := by
    rintro rfl
    cases digit
  rw [scan, scanStep, if_neg quote, if_neg back]

theorem scan_decoded {x y d : Char} (decoded : decodeChar [x, y] = .ok d) (text : Str) :
    scan .inside (x :: y :: text) = scan .inside text := by
  obtain ⟨n, converted, -⟩ := map_ok decoded
  have ok : ∃ n, HttpUri.cvtZToUIntBase [x, y] = .ok n := by
    cases value : HttpUri.cvtZToUIntBase [x, y] with
    | ok n => exact ⟨n, rfl⟩
    | error e =>
      rw [value] at converted
      cases converted
  rcases HttpUri.cvtZToUIntBase_ok_iff.mp ok with ⟨a, b, same, high, low⟩ | ⟨b, same, low⟩
  · cases same
    rw [scan_digit high, scan_digit low]
  · cases same
    exact scan_digit low text

theorem scan_escaped {c d : Char} (known : escaped c = some d) (text : Str) :
    scan .inside ('\\' :: c :: text) = scan .inside text := by
  have other : c ≠ '=' := by
    rintro rfl
    cases known
  change (match scanStep .escape c with
    | none => none
    | some next => scan next text) = _
  rw [scanStep, if_neg other]

/-- The characters of a string are read up to the quote that ends it. -/
theorem scan_string {value : Str} (parsed : stringLoop json = .ok (value, rest)) :
    ∃ text, json = text ++ rest ∧ scan .inside text = some .outside := by
  induction size : json.length using Nat.strong_induction_on generalizing json value rest with
  | _ n ih =>
    subst size
    rw [stringLoop.eq_def] at parsed
    cases json with
    | nil => cases parsed
    | cons c json =>
      dsimp only at parsed
      by_cases quote : c = '"'
      · rw [if_pos quote] at parsed
        cases parsed
        subst quote
        exact ⟨['"'], rfl, rfl⟩
      · rw [if_neg quote] at parsed
        by_cases escape : c = '\\'
        · rw [if_pos escape] at parsed
          subst escape
          cases json with
          | nil => cases parsed
          | cons e json =>
            dsimp only at parsed
            cases known : escaped e with
            | some d =>
              rw [known] at parsed
              obtain ⟨⟨inner, left⟩, later, pair⟩ := map_ok parsed
              cases pair
              obtain ⟨text, rfl, scanned⟩ := ih json.length (by simp only [List.length_cons]; omega) later rfl
              exact ⟨'\\' :: e :: text, rfl, by rw [scan_escaped known, scanned]⟩
            | none =>
              rw [known] at parsed
              dsimp only at parsed
              by_cases code : e = 'u'
              · rw [if_pos code] at parsed
                subst code
                rcases json with _ | ⟨a, _ | ⟨b, _ | ⟨x, _ | ⟨y, json⟩⟩⟩⟩
                · cases parsed
                · cases parsed
                · dsimp only at parsed
                  split at parsed <;> cases parsed
                · dsimp only at parsed
                  split at parsed
                  · cases decoded : decodeChar [x] <;>
                    · rw [decoded] at parsed
                      cases parsed
                  · cases parsed
                · dsimp only at parsed
                  split at parsed
                  next zeros =>
                    obtain ⟨rfl, rfl⟩ := zeros
                    cases decoded : decodeChar [x, y] with
                    | error fault =>
                      rw [decoded] at parsed
                      cases parsed
                    | ok d =>
                      rw [decoded] at parsed
                      obtain ⟨⟨inner, left⟩, later, pair⟩ := map_ok parsed
                      cases pair
                      obtain ⟨text, rfl, scanned⟩ := ih json.length (by simp only [List.length_cons]; omega) later rfl
                      refine ⟨'\\' :: 'u' :: '0' :: '0' :: x :: y :: text, rfl, ?_⟩
                      change scan .inside (x :: y :: text) = _
                      rw [scan_decoded decoded, scanned]
                  next => cases parsed
              · rw [if_neg code] at parsed
                cases parsed
        · rw [if_neg escape] at parsed
          obtain ⟨⟨inner, left⟩, later, pair⟩ := map_ok parsed
          cases pair
          obtain ⟨text, rfl, scanned⟩ := ih json.length (by simp) later rfl
          refine ⟨c :: text, rfl, ?_⟩
          rw [scan, scanStep, if_neg quote, if_neg escape]
          exact scanned

theorem consumed_string {value : Str} (parsed : jsonToStrInternal json = .ok (value, rest)) :
    Consumed json rest := by
  unfold jsonToStrInternal at parsed
  split at parsed
  next json =>
    obtain ⟨text, rfl, scanned⟩ := scan_string parsed
    exact ⟨'"' :: text, rfl, scanned⟩
  next => cases parsed

theorem consumed_closed {bracket : Char} {result value : α} (isPlain : plain bracket = true)
    (parsed : closed bracket result json = .ok (value, rest)) :
    Consumed json rest := by
  rw [closed] at parsed
  split at parsed
  next head =>
    cases parsed
    exact Consumed.tail head isPlain
  next => cases parsed

theorem consumed_asVariant {variant : α → Variant} {value : Variant} {part : Parsed α}
    (inner : ∀ a after, part = .ok (a, after) → Consumed json after)
    (parsed : asVariant variant part = .ok (value, rest)) : Consumed json rest := by
  obtain ⟨⟨a, after⟩, ok, pair⟩ := map_ok parsed
  cases pair
  exact (inner a after ok).trans (consumed_white after)

end Parts

section Parser

/-- Everything that is read with this fuel has its quotes in pairs. -/
structure Reading (fuel : Nat) : Prop where
  kvLoop : ∀ json acc result rest, kvLoop fuel json acc = .ok (result, rest) → Consumed json rest
  varLstLoop : ∀ json acc result rest,
    varLstLoop fuel json acc = .ok (result, rest) → Consumed json rest
  kv : ∀ json result rest, json.head? = some '\x7b' →
    jsonToKvInternal fuel json = .ok (result, rest) → Consumed json rest
  varLst : ∀ json result rest,
    jsonToVarLstInternal fuel json = .ok (result, rest) → Consumed json rest
  var : ∀ json result rest, jsonToVarInternal fuel json = .ok (result, rest) → Consumed json rest

variable {fuel : Nat}

variable {json rest : Str}

theorem reading_kvLoop (ih : Reading fuel) {acc result : List (Str × Variant)}
    (parsed : kvLoop (fuel + 1) json acc = .ok (result, rest)) : Consumed json rest := by
  rw [kvLoop] at parsed
  split at parsed
  next => cases parsed
  next key after string =>
    have name := (consumed_skipComma json).trans (consumed_string string)
    split at parsed
    next behind colon =>
      have separator : Consumed after behind := by
        have white := consumed_white after
        rw [colon] at white
        exact white.trans (@Consumed.append [':'] rfl behind)
      have front := (name.trans separator).trans (consumed_white behind)
      split at parsed
      next => cases parsed
      next value left var =>
        have whole := front.trans (ih.var _ _ _ var)
        split at parsed
        next => exact whole.trans (ih.kvLoop _ _ _ _ parsed)
        next =>
          cases parsed
          exact whole
    next => cases parsed

theorem reading_varLstLoop (ih : Reading fuel) {acc result : List Variant}
    (parsed : varLstLoop (fuel + 1) json acc = .ok (result, rest)) : Consumed json rest := by
  rw [varLstLoop] at parsed
  split at parsed
  next => cases parsed
  next value left var =>
    have whole := ((consumed_skipComma json).trans (ih.var _ _ _ var)).trans (consumed_white left)
    dsimp only at parsed
    split at parsed
    next => exact whole.trans (ih.varLstLoop _ _ _ _ parsed)
    next =>
      cases parsed
      exact whole

theorem reading_kv (ih : Reading fuel) {result : List (Str × Variant)}
    (head : json.head? = some '\x7b')
    (parsed : jsonToKvInternal (fuel + 1) json = .ok (result, rest)) : Consumed json rest := by
  have front := (Consumed.tail head rfl).trans (consumed_white json.tail)
  rw [jsonToKvInternal] at parsed
  split at parsed
  next isClosed =>
    cases parsed
    exact front.trans (Consumed.tail isClosed rfl)
  next =>
    split at parsed
    next => cases parsed
    next pairs left loop =>
      exact (front.trans (ih.kvLoop _ _ _ _ loop)).trans (consumed_closed rfl parsed)

theorem reading_varLst (ih : Reading fuel) {result : List Variant}
    (parsed : jsonToVarLstInternal (fuel + 1) json = .ok (result, rest)) : Consumed json rest := by
  rw [jsonToVarLstInternal] at parsed
  split at parsed
  next head =>
    have front := (Consumed.tail head rfl).trans (consumed_white json.tail)
    dsimp only at parsed
    split at parsed
    next isClosed =>
      cases parsed
      exact front.trans (Consumed.tail isClosed rfl)
    next =>
      split at parsed
      next => cases parsed
      next items left loop =>
        exact (front.trans (ih.varLstLoop _ _ _ _ loop)).trans (consumed_closed rfl parsed)
  next => cases parsed

theorem reading_var (ih : Reading fuel) {result : Variant}
    (parsed : jsonToVarInternal (fuel + 1) json = .ok (result, rest)) : Consumed json rest := by
  have front := consumed_white json
  rw [jsonToVarInternal] at parsed
  split at parsed
  next => cases parsed
  next c text shape =>
    split at parsed
    next => exact front.trans (consumed_asVariant (fun _ _ => consumed_string) parsed)
    split at parsed
    next => exact front.trans (consumed_asVariant (fun _ _ => consumed_number) parsed)
    split at parsed
    next => exact front.trans (consumed_asVariant (fun _ _ => consumed_bool) parsed)
    split at parsed
    next =>
      split at parsed
      next starts =>
        cases parsed
        exact (front.trans (consumed_drop starts rfl)).trans (consumed_white _)
      next => cases parsed
    split at parsed
    next => exact front.trans (consumed_asVariant (fun _ _ => ih.varLst _ _ _) parsed)
    split at parsed
    next isObject =>
      exact front.trans (consumed_asVariant (fun _ _ => ih.kv _ _ _ (by rw [shape, isObject]; rfl)) parsed)
    cases parsed

theorem reading (fuel : Nat) : Reading fuel := by
  induction fuel with
  | zero => exact ⟨nofun, nofun, nofun, nofun, nofun⟩
  | succ fuel ih =>
    exact {
      kvLoop := fun _ _ _ _ => reading_kvLoop ih
      varLstLoop := fun _ _ _ _ => reading_varLstLoop ih
      kv := fun _ _ _ => reading_kv ih
      varLst := fun _ _ _ => reading_varLst ih
      var := fun _ _ _ => reading_var ih }

/-- A text that is accepted has its quotes in pairs. -/
theorem scan_of_jsonToVar {v : Variant} (accepted : jsonToVar json = .ok v) :
    scan .outside json = some .outside := by
  rw [jsonToVar] at accepted
  split at accepted
  next => cases accepted
  next result rest parsed =>
    split at accepted
    next none =>
      obtain ⟨text, rfl, scanned⟩ := (reading _).var _ _ _ parsed
      rw [none, List.append_nil]
      exact scanned
    next => cases accepted

end Parser

section Laws

/-- The characters of numbers, words and punctuation. -/
def plainLetter (c : Char) : Bool :=
  c.isAlphanum || c = '-' || c = ',' || c = ':' || c = '[' || c = ']' || c = '\x7b' || c = '\x7d'

/-- Every string at any depth is so. -/
inductive EveryString (holds : Str → Prop) : Variant → Prop
  | null : EveryString holds .null
  | scalar (value : Scalar) : EveryString holds (.scalar value)
  | string {value : Str} (text : holds value) : EveryString holds (.string value)
  | list {items : List Variant} (parts : ∀ v ∈ items, EveryString holds v) :
      EveryString holds (.list items)
  | kv {pairs : List (Str × Variant)} (parts : ∀ pair ∈ pairs, EveryString holds pair.2) :
      EveryString holds (.kv pairs)

theorem everyString {holds : Str → Prop} (all : ∀ value, holds value) (v : Variant) :
    EveryString holds v := by
  induction v using Variant.induct with
  | null => exact .null
  | scalar value => exact .scalar value
  | string value => exact .string (all value)
  | list items ih => exact .list ih
  | kv pairs ih => exact .kv ih

/-- What holds of the pieces of a text and of texts put together. -/
structure TextLaw (string key holds : Str → Prop) : Prop where
  append : ∀ {front back : Str}, holds front → holds back → holds (front ++ back)
  letters : ∀ {text : Str}, text.all plainLetter = true → holds text
  text : ∀ {value : Str}, string value → holds (jsonFromStrInternal value)
  key : ∀ {text : Str}, key text → holds ('"' :: (text ++ ['"']))

variable {string key holds : Str → Prop} (law : TextLaw string key holds)
include law

theorem TextLaw.fmtInt (n : Int) : holds (fmtInt n) := by
  have digits : (fmtUInt n.natAbs).all plainLetter = true := by
    rw [List.all_eq_true]
    intro c mem
    simp [plainLetter, Char.isAlphanum, isDigit_of_mem_fmtUInt mem]
  rw [Json.fmtInt]
  split
  · exact law.letters (by rw [List.all_cons, digits]; rfl)
  · exact law.letters digits

theorem TextLaw.flatMap {α : Type} {text : α → Str} {items : List α}
    (each : ∀ a ∈ items, holds (text a)) : holds (items.flatMap text) := by
  induction items with
  | nil => exact law.letters rfl
  | cons a items ih =>
    rw [List.forall_mem_cons] at each
    rw [List.flatMap_cons]
    exact law.append each.1 (ih each.2)

/-- What is put between brackets with commas. -/
theorem TextLaw.join {α : Type} {text : α → Str} {items : List α}
    (each : ∀ a ∈ items, holds (text a)) : holds (strLstJoin (items.map text) [',']) := by
  cases items with
  | nil => exact law.letters rfl
  | cons a items =>
    rw [List.forall_mem_cons] at each
    rw [List.map_cons, strLstJoin_cons, List.flatMap_map]
    refine law.append each.1 (law.flatMap fun b mem => ?_)
    exact @TextLaw.append string key holds law [','] (text b) (law.letters rfl) (each.2 b mem)

theorem TextLaw.varSub (v : Variant) (strings : EveryString string v) (keys : EveryKey key v) :
    holds (varSub v) := by
  induction v using Variant.induct with
  | null =>
    rw [Json.varSub]
    exact law.letters rfl
  | scalar value =>
    rcases varSub_scalar value with ⟨b, rfl⟩ | ⟨n, -, -, -, text⟩
    · rw [Json.varSub]
      cases b with
      | true => exact law.letters rfl
      | false => exact law.letters rfl
    · rw [text]
      exact law.fmtInt n
  | string value =>
    rw [Json.varSub]
    cases strings with
    | string inside => exact law.text inside
  | list items ih =>
    cases strings with
    | list texts =>
      cases keys with
      | list parts =>
        rw [Json.varSub, listText, varSubs_eq]
        have inner := law.join fun v mem => ih v mem (texts v mem) (parts v mem)
        exact law.append (@TextLaw.append string key holds law ['['] _ (law.letters rfl) inner)
          (law.letters rfl)
  | kv pairs ih =>
    cases strings with
    | kv texts =>
      cases keys with
      | kv keys parts =>
        rw [Json.varSub, kvText_eq]
        have inner : holds (strLstJoin ((sortedPairs .null pairs).map entryText) [',']) := by
          apply law.join
          intro pair mem
          have held := mem_sortedPairs mem
          have text : entryText pair =
              ('"' :: (pair.1 ++ ['"'])) ++ ([':'] ++ Json.varSub pair.2) := by simp [entryText]
          rw [text]
          refine law.append (law.key (keys pair held)) ?_
          exact law.append (law.letters rfl) (ih pair held (texts pair held) (parts pair held))
        exact law.append (@TextLaw.append string key holds law ['\x7b'] _ (law.letters rfl) inner)
          (law.letters rfl)

end Laws

section Inverted

/-- The text leaves a reader that begins inside of a string inside of one. -/
def Inverted (text : Str) : Prop := ∀ state, scan .inside text = some state → state = .inside

/-- The text leaves a reader that begins outside of a string outside. -/
def Straight (text : Str) : Prop := ∀ state, scan .outside text = some state → state = .outside

theorem Inverted.append {front back : Str} (first : Inverted front) (second : Inverted back) :
    Inverted (front ++ back) := by
  intro state scanned
  rw [scan_append] at scanned
  obtain ⟨next, before, after⟩ := Option.bind_eq_some_iff.mp scanned
  rw [first next before] at after
  exact second state after

theorem Straight.append {front back : Str} (first : Straight front) (second : Straight back) :
    Straight (front ++ back) := by
  intro state scanned
  rw [scan_append] at scanned
  obtain ⟨next, before, after⟩ := Option.bind_eq_some_iff.mp scanned
  rw [first next before] at after
  exact second state after

/-- Between two quotes a text is read from the other side. -/
theorem Straight.quoted {text : Str} (straight : Straight text) :
    Inverted ('"' :: (text ++ ['"'])) := by
  intro state scanned
  change scan .outside (text ++ ['"']) = some state at scanned
  rw [scan_append] at scanned
  obtain ⟨next, before, after⟩ := Option.bind_eq_some_iff.mp scanned
  rw [straight next before] at after
  exact (Option.some.inj after).symm

theorem inverted_plain {text : Str} (noQuote : '"' ∉ text) (noEscape : '\\' ∉ text) :
    Inverted text := by
  induction text with
  | nil =>
    intro state scanned
    exact (Option.some.inj scanned).symm
  | cons c text ih =>
    rw [List.mem_cons, not_or] at noQuote noEscape
    intro state scanned
    rw [scan, scanStep, if_neg (Ne.symm noQuote.1), if_neg (Ne.symm noEscape.1)] at scanned
    exact ih noQuote.2 noEscape.2 state scanned

theorem straight_plain {text : Str} (noQuote : '"' ∉ text) : Straight text := by
  induction text with
  | nil =>
    intro state scanned
    exact (Option.some.inj scanned).symm
  | cons c text ih =>
    rw [List.mem_cons, not_or] at noQuote
    intro state scanned
    rw [scan, scanStep, if_neg (Ne.symm noQuote.1)] at scanned
    split at scanned
    next => cases scanned
    next next' step =>
      split at step
      next => cases step
      next =>
        cases step
        exact ih noQuote.2 state scanned

theorem straight_escape (c : Char) : Straight (escape c) := by
  have refused : ∀ d, Straight ['\\', d] := by
    intro d state scanned
    cases scanned
  unfold escape
  split
  next => exact refused '"'
  next noQuote =>
    split
    next => exact refused '\\'
    split
    next => exact refused 'n'
    split
    next => exact refused 'r'
    split
    next => exact refused 't'
    split
    next => exact refused 'b'
    split
    next => exact refused 'f'
    exact straight_plain (by simpa using Ne.symm noQuote)

theorem straight_escapes (value : Str) : Straight (value.flatMap escape) := by
  induction value with
  | nil => exact straight_plain List.not_mem_nil
  | cons c value ih =>
    rw [List.flatMap_cons]
    exact (straight_escape c).append ih

theorem plainLetter_ne {text : Str} (letters : text.all plainLetter = true) :
    '"' ∉ text ∧ '\\' ∉ text := by
  rw [List.all_eq_true] at letters
  constructor
  · intro mem
    cases letters _ mem
  · intro mem
    cases letters _ mem

theorem inverted_law : TextLaw (fun _ => True) (fun key => '"' ∉ key ∧ '\\' ∉ key) Inverted where
  append := Inverted.append
  letters := fun letters => inverted_plain (plainLetter_ne letters).1 (plainLetter_ne letters).2
  text := fun _ => (straight_escapes _).quoted
  key := fun plainKey => (straight_plain plainKey.1).quoted

/-- A text that is not accepted behind an equals sign: it stands outside of a string, or leaves
one open. -/
theorem not_accepted (front : Str) {v : Variant} (plainKeys : PlainKeys v) (w : Variant) :
    jsonToVar (front ++ '=' :: varSub v) ≠ .ok w := by
  intro accepted
  have scanned := scan_of_jsonToVar accepted
  rw [scan_append] at scanned
  obtain ⟨next, before, after⟩ := Option.bind_eq_some_iff.mp scanned
  cases next with
  | outside => cases after
  | escape => cases after
  | inside => cases inverted_law.varSub v (everyString (fun _ => trivial) v) plainKeys _ after

end Inverted

end Json
