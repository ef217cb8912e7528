import Backrest.RegExp
import Backrest.Time

/-!
# The epoch of a recovery target

`getEpoch` reads a date, a time of day, a fraction of a second and the offset of a time
zone. The sign of the offset is read with its hours.
-/

namespace GetEpoch

open Text RegExp Convert Gregorian Time

section Code

def charExp (c : Char) : Exp Char := .one (fun a => a = c)

def digitExp : Exp Char := .one Char.isDigit

/-- `[0-9]{n}` -/
def digitsExp : Nat → Exp Char
  | 0 => .empty
  | n + 1 => .seq digitExp (digitsExp n)

/-- `[0-9]{0,n}` -/
def upToExp : Nat → Exp Char
  | 0 => .empty
  | n + 1 => .optional (.seq digitExp (upToExp n))

def fractionExp : Exp Char :=
  .optional (.seq (.either (charExp ',') (charExp '.')) (.seq digitExp (upToExp 5)))

def zoneExp : Exp Char :=
  .seq (.either (charExp '+') (charExp '-'))
    (.seq (digitsExp 2) (.seq (.optional (charExp ':')) (.optional (digitsExp 2))))

def expression : Exp Char :=
  .seq (digitsExp 4) (.seq (charExp '-') (.seq (digitsExp 2) (.seq (charExp '-') (.seq (digitsExp 2)
    (.seq (charExp ' ') (.seq (digitsExp 2) (.seq (charExp ':') (.seq (digitsExp 2)
      (.seq (charExp ':') (.seq (digitsExp 2) (.seq fractionExp (.optional zoneExp))))))))))))

def strChr (this : Str) (chr : Char) : Option Nat := this.findIdx? (· = chr)

def zoneOffset (timezoneOffset : Str) : Except Stop Int := do
  let tzHour ← cvtZToInt (strSubN timezoneOffset 0 3)
  let tzMinute ←
    if timezoneOffset.length > 3 then
      cvtZToInt (strSubN timezoneOffset (3 + if strChr timezoneOffset ':' = none then 0 else 1) 2)
    else .ok 0
  tzOffsetSeconds tzHour tzMinute

/-- Local time is left to `mktime`. A text of another form is not an error: the result is
zero. -/
def getEpoch (mktime : Int → Int → Int → Int → Int → Int → Int) (targetTime : Str) :
    Except Stop Int :=
  if regExpMatch expression targetTime then do
    let datetime := strSubN targetTime 0 19
    let dtYear ← cvtZToInt (strSubN datetime 0 4)
    let dtMonth ← cvtZToInt (strSubN datetime 5 2)
    let dtDay ← cvtZToInt (strSubN datetime 8 2)
    let dtHour ← cvtZToInt (strSubN datetime 11 2)
    let dtMinute ← cvtZToInt (strSubN datetime 14 2)
    let dtSecond ← cvtZToInt (strSubN datetime 17 2)
    datePartsValid dtYear dtMonth dtDay
    timePartsValid dtHour dtMinute dtSecond
    let timeTargetZone := targetTime.drop 19
    let idxSign := (strChr timeTargetZone '+').or (strChr timeTargetZone '-')
    match idxSign with
    | some idxSign => do
      let offset ← zoneOffset (timeTargetZone.drop idxSign)
      epochFromParts dtYear dtMonth dtDay dtHour dtMinute dtSecond offset
    | none => .ok (mktime dtYear dtMonth dtDay dtHour dtMinute dtSecond)
  else .ok 0

end Code

/-! ## Strings with an offset -/

section Stamps

/-- The digits of a number of a fixed width. -/
structure Digits (width : Nat) where
  text : Str
  length : text.length = width
  digits : ∀ c ∈ text, c.isDigit = true

def Digits.value {width : Nat} (d : Digits width) : Nat := cvtDigits d.text

def IsFraction (text : Str) : Prop :=
  text = [] ∨ ∃ separator digits, text = separator :: digits ∧
    (separator = ',' ∨ separator = '.') ∧ 1 ≤ digits.length ∧ digits.length ≤ 6 ∧
    ∀ c ∈ digits, c.isDigit = true

/-- The minutes of an offset stand after a colon or not, and may be left out. -/
inductive ZoneMinute where
  | none (colon : Bool)
  | some (colon : Bool) (minute : Digits 2)

/-- The parts of a string that carries an offset. -/
structure Stamp where
  year : Digits 4
  month : Digits 2
  day : Digits 2
  hour : Digits 2
  minute : Digits 2
  second : Digits 2
  fraction : Str
  isFraction : IsFraction fraction
  negative : Bool
  zoneHour : Digits 2
  zoneMinute : ZoneMinute

def colonText (colon : Bool) : Str := if colon then [':'] else []

def ZoneMinute.text : ZoneMinute → Str
  | .none colon => colonText colon
  | .some colon minute => colonText colon ++ minute.text

/-- Left out minutes are zero. -/
def ZoneMinute.value : ZoneMinute → Nat
  | .none _ => 0
  | .some _ minute => minute.value

def signText (negative : Bool) : Str := if negative then ['-'] else ['+']

def Stamp.zoneText (stamp : Stamp) : Str :=
  signText stamp.negative ++ (stamp.zoneHour.text ++ stamp.zoneMinute.text)

def Stamp.text (stamp : Stamp) : Str :=
  stamp.year.text ++ ('-' :: (stamp.month.text ++ ('-' :: (stamp.day.text ++ (' ' ::
    (stamp.hour.text ++ (':' :: (stamp.minute.text ++ (':' :: (stamp.second.text ++
      (stamp.fraction ++ stamp.zoneText)))))))))))

theorem matches_digitsExp {n : Nat} {s : Str} :
    Matches (digitsExp n) s ↔ s.length = n ∧ ∀ c ∈ s, c.isDigit = true := by
  induction n generalizing s with
  | zero =>
    rw [digitsExp, matches_empty, List.length_eq_zero_iff]
    constructor
    · rintro rfl
      exact ⟨rfl, nofun⟩
    · exact And.left
  | succ n ih =>
    simp only [digitsExp, matches_seq, digitExp, matches_one, ih]
    constructor
    · rintro ⟨_, r, ⟨a, digit, rfl⟩, ⟨length, all⟩, rfl⟩
      refine ⟨congrArg (· + 1) length, fun c mem => ?_⟩
      rcases List.mem_cons.mp mem with rfl | mem
      · exact digit
      · exact all c mem
    · rintro ⟨length, all⟩
      cases s with
      | nil => cases length
      | cons a rest =>
        exact ⟨[a], rest, ⟨a, all a List.mem_cons_self, rfl⟩,
          ⟨Nat.succ.inj length, fun c mem => all c (List.mem_cons_of_mem a mem)⟩, rfl⟩

theorem matches_upToExp {n : Nat} {s : Str} :
    Matches (upToExp n) s ↔ s.length ≤ n ∧ ∀ c ∈ s, c.isDigit = true := by
  induction n generalizing s with
  | zero =>
    rw [upToExp, matches_empty, Nat.le_zero, List.length_eq_zero_iff]
    constructor
    · rintro rfl
      exact ⟨rfl, nofun⟩
    · exact And.left
  | succ n ih =>
    simp only [upToExp, Exp.optional, matches_either, matches_seq, digitExp, matches_one, ih,
      matches_empty]
    constructor
    · rintro (⟨_, r, ⟨a, digit, rfl⟩, ⟨length, all⟩, rfl⟩ | rfl)
      · refine ⟨Nat.succ_le_succ length, fun c mem => ?_⟩
        rcases List.mem_cons.mp mem with rfl | mem
        · exact digit
        · exact all c mem
      · exact ⟨Nat.zero_le _, nofun⟩
    · rintro ⟨length, all⟩
      cases s with
      | nil => exact .inr rfl
      | cons a rest =>
        exact .inl ⟨[a], rest, ⟨a, all a List.mem_cons_self, rfl⟩,
          ⟨Nat.le_of_succ_le_succ length, fun c mem => all c (List.mem_cons_of_mem a mem)⟩, rfl⟩

theorem matches_charExp {c : Char} {s : Str} : Matches (charExp c) s ↔ s = [c] := by
  rw [charExp, matches_one]
  constructor
  · rintro ⟨a, same, rfl⟩
    rw [of_decide_eq_true same]
  · rintro rfl
    exact ⟨c, decide_eq_true rfl, rfl⟩

theorem matches_optional {e : Exp Char} {s : Str} : Matches e.optional s ↔ Matches e s ∨ s = [] := by
  rw [Exp.optional, matches_either, matches_empty]

theorem matches_fractionExp {s : Str} : Matches fractionExp s ↔ IsFraction s := by
  rw [fractionExp, matches_optional, IsFraction, or_comm]
  refine or_congr_right ?_
  simp only [matches_seq, matches_either, matches_charExp, digitExp, matches_one, matches_upToExp]
  constructor
  · rintro ⟨_, _, separator, ⟨_, r, ⟨a, digit, rfl⟩, ⟨length, all⟩, rfl⟩, rfl⟩
    have whole : ∀ c ∈ a :: r, c.isDigit = true := by
      intro c mem
      rcases List.mem_cons.mp mem with rfl | mem
      · exact digit
      · exact all c mem
    rcases separator with rfl | rfl
    · exact ⟨',', a :: r, rfl, .inl rfl, Nat.succ_pos _, Nat.succ_le_succ length, whole⟩
    · exact ⟨'.', a :: r, rfl, .inr rfl, Nat.succ_pos _, Nat.succ_le_succ length, whole⟩
  · rintro ⟨separator, digits, rfl, isSeparator, one, six, all⟩
    cases digits with
    | nil => cases one
    | cons a r =>
      refine ⟨[separator], a :: r, isSeparator.imp (congrArg ([·])) (congrArg ([·])),
        ⟨[a], r, ⟨a, all a List.mem_cons_self, rfl⟩,
          ⟨Nat.le_of_succ_le_succ six, fun c mem => all c (List.mem_cons_of_mem a mem)⟩, rfl⟩, rfl⟩

theorem matches_digits {width : Nat} {s : Str} :
    Matches (digitsExp width) s ↔ ∃ d : Digits width, s = d.text := by
  rw [matches_digitsExp]
  constructor
  · exact fun ⟨length, all⟩ => ⟨⟨s, length, all⟩, rfl⟩
  · rintro ⟨d, rfl⟩
    exact ⟨d.length, d.digits⟩

theorem matches_colon {s : Str} :
    Matches (charExp ':').optional s ↔ ∃ colon, s = colonText colon := by
  rw [matches_optional, matches_charExp]
  constructor
  · rintro (rfl | rfl)
    · exact ⟨true, rfl⟩
    · exact ⟨false, rfl⟩
  · rintro ⟨colon, rfl⟩
    cases colon with
    | true => exact .inl rfl
    | false => exact .inr rfl

theorem matches_zoneMinute {s : Str} :
    Matches (.seq (charExp ':').optional (digitsExp 2).optional) s ↔
      ∃ minute : ZoneMinute, s = minute.text := by
  rw [matches_seq]
  simp only [matches_colon, @matches_optional (digitsExp 2), matches_digits]
  constructor
  · rintro ⟨_, _, ⟨colon, rfl⟩, ⟨minute, rfl⟩ | rfl, rfl⟩
    · exact ⟨.some colon minute, rfl⟩
    · exact ⟨.none colon, List.append_nil _⟩
  · rintro ⟨minute, rfl⟩
    cases minute with
    | none colon => exact ⟨_, [], ⟨colon, rfl⟩, .inr rfl, (List.append_nil _).symm⟩
    | some colon minute => exact ⟨_, _, ⟨colon, rfl⟩, .inl ⟨minute, rfl⟩, rfl⟩

theorem matches_zoneExp {s : Str} : Matches zoneExp s ↔
    ∃ negative, ∃ hour : Digits 2, ∃ minute : ZoneMinute,
      s = signText negative ++ (hour.text ++ minute.text) := by
  rw [zoneExp, matches_seq]
  constructor
  · rintro ⟨_, _, sign, rest, rfl⟩
    obtain ⟨_, _, inHour, inMinute, rfl⟩ := matches_seq.mp rest
    obtain ⟨hour, rfl⟩ := matches_digits.mp inHour
    obtain ⟨minute, rfl⟩ := matches_zoneMinute.mp inMinute
    rcases matches_either.mp sign with plus | minus
    · exact ⟨false, hour, minute, by rw [matches_charExp.mp plus]; rfl⟩
    · exact ⟨true, hour, minute, by rw [matches_charExp.mp minus]; rfl⟩
  · rintro ⟨negative, hour, minute, rfl⟩
    refine ⟨_, _, ?_, .seq (matches_digits.mpr ⟨hour, rfl⟩) (matches_zoneMinute.mpr ⟨minute, rfl⟩),
      rfl⟩
    cases negative with
    | true => exact .right (matches_charExp.mpr rfl)
    | false => exact .left (matches_charExp.mpr rfl)

theorem matches_dateTime {tail : Exp Char} {s : Str} :
    Matches (.seq (digitsExp 4) (.seq (charExp '-') (.seq (digitsExp 2) (.seq (charExp '-')
      (.seq (digitsExp 2) (.seq (charExp ' ') (.seq (digitsExp 2) (.seq (charExp ':')
        (.seq (digitsExp 2) (.seq (charExp ':') (.seq (digitsExp 2) tail))))))))))) s ↔
      ∃ year : Digits 4, ∃ month day hour minute second : Digits 2, ∃ rest,
        Matches tail rest ∧ s = year.text ++ ('-' :: (month.text ++ ('-' :: (day.text ++ (' ' ::
          (hour.text ++ (':' :: (minute.text ++ (':' :: (second.text ++ rest)))))))))) := by
  simp only [@matches_seq _ (digitsExp _), @matches_seq _ (charExp _), matches_digits, matches_charExp]
  constructor
  · rintro ⟨_, _, ⟨year, rfl⟩, ⟨_, _, rfl, ⟨_, _, ⟨month, rfl⟩, ⟨_, _, rfl, ⟨_, _, ⟨day, rfl⟩,
      ⟨_, _, rfl, ⟨_, _, ⟨hour, rfl⟩, ⟨_, _, rfl, ⟨_, _, ⟨minute, rfl⟩, ⟨_, _, rfl,
        ⟨_, rest, ⟨second, rfl⟩, matched, rfl⟩, rfl⟩, rfl⟩, rfl⟩, rfl⟩, rfl⟩, rfl⟩, rfl⟩, rfl⟩,
          rfl⟩, rfl⟩
    exact ⟨year, month, day, hour, minute, second, rest, matched, rfl⟩
  · rintro ⟨year, month, day, hour, minute, second, rest, matched, rfl⟩
    exact ⟨_, _, ⟨year, rfl⟩, ⟨_, _, rfl, ⟨_, _, ⟨month, rfl⟩, ⟨_, _, rfl, ⟨_, _, ⟨day, rfl⟩,
      ⟨_, _, rfl, ⟨_, _, ⟨hour, rfl⟩, ⟨_, _, rfl, ⟨_, _, ⟨minute, rfl⟩, ⟨_, _, rfl,
        ⟨_, rest, ⟨second, rfl⟩, matched, rfl⟩, rfl⟩, rfl⟩, rfl⟩, rfl⟩, rfl⟩, rfl⟩, rfl⟩, rfl⟩,
          rfl⟩, rfl⟩

/-- A string of the form carries an offset or ends after the fraction. -/
theorem expression_iff {s : Str} : regExpMatch expression s = true ↔
    (∃ stamp : Stamp, s = stamp.text) ∨
      ∃ year : Digits 4, ∃ month day hour minute second : Digits 2, ∃ fraction,
        IsFraction fraction ∧ s = year.text ++ ('-' :: (month.text ++ ('-' :: (day.text ++ (' ' ::
          (hour.text ++ (':' :: (minute.text ++ (':' :: (second.text ++ fraction)))))))))) := by
  rw [regExpMatch_iff, expression, matches_dateTime]
  constructor
  · rintro ⟨year, month, day, hour, minute, second, rest, matched, rfl⟩
    obtain ⟨fraction, zone, isFraction, inZone, rfl⟩ := matches_seq.mp matched
    rw [matches_fractionExp] at isFraction
    rcases matches_optional.mp inZone with inZone | rfl
    · obtain ⟨negative, zoneHour, zoneMinute, rfl⟩ := matches_zoneExp.mp inZone
      exact .inl ⟨⟨year, month, day, hour, minute, second, fraction, isFraction, negative, zoneHour,
        zoneMinute⟩, rfl⟩
    · rw [List.append_nil]
      exact .inr ⟨year, month, day, hour, minute, second, fraction, isFraction, rfl⟩
  · rintro (⟨stamp, rfl⟩ | ⟨year, month, day, hour, minute, second, fraction, isFraction, rfl⟩)
    · refine ⟨stamp.year, stamp.month, stamp.day, stamp.hour, stamp.minute, stamp.second, _,
        .seq (matches_fractionExp.mpr stamp.isFraction) (matches_optional.mpr (.inl ?_)), rfl⟩
      exact matches_zoneExp.mpr ⟨stamp.negative, stamp.zoneHour, stamp.zoneMinute, rfl⟩
    · refine ⟨year, month, day, hour, minute, second, fraction, ?_, rfl⟩
      rw [← List.append_nil fraction]
      exact .seq (matches_fractionExp.mpr isFraction) (matches_optional.mpr (.inr rfl))

end Stamps

/-! ## Reading a string with an offset -/

section Reading

theorem Digits.value_lt {width : Nat} (d : Digits width) : d.value < 10 ^ width := by
  have lt := cvtDigits_lt d.digits
  rw [d.length] at lt
  exact lt

theorem Digits.ne_nil {width : Nat} (d : Digits (width + 1)) : d.text ≠ [] := by
  rw [← List.length_pos_iff, d.length]
  exact Nat.succ_pos width

theorem cvtZToInt_two (d : Digits 2) : cvtZToInt d.text = .ok d.value := by
  have small := d.value_lt
  exact cvtZToInt_digits d.ne_nil d.digits (by rw [Digits.value] at small; omega)

theorem cvtZToInt_four (d : Digits 4) : cvtZToInt d.text = .ok d.value := by
  have small := d.value_lt
  exact cvtZToInt_digits d.ne_nil d.digits (by rw [Digits.value] at small; omega)

/-- The hours of the offset with its sign. -/
def Stamp.tzHour (stamp : Stamp) : Int :=
  if stamp.negative then -(stamp.zoneHour.value : Int) else stamp.zoneHour.value

theorem cvtZToInt_zoneHour (stamp : Stamp) :
    cvtZToInt (signText stamp.negative ++ stamp.zoneHour.text) = .ok stamp.tzHour := by
  have small := stamp.zoneHour.value_lt
  exact cvtZToInt_of_digits stamp.zoneHour.ne_nil stamp.zoneHour.digits
    (by rw [Digits.value] at small; omega) (.inl rfl)

theorem not_mem_digits {width : Nat} (d : Digits width) {c : Char} (other : c.isDigit = false) :
    c ∉ d.text := by
  intro mem
  rw [d.digits c mem] at other
  cases other

theorem strChr_append {front rest : Str} {chr : Char} (absent : chr ∉ front) :
    strChr (front ++ chr :: rest) chr = some front.length := by
  rw [strChr, List.findIdx?_append]
  have none : front.findIdx? (· = chr) = none := by
    rw [List.findIdx?_eq_none_iff]
    rintro c mem
    rw [decide_eq_false_iff_not]
    rintro rfl
    exact absent mem
  rw [none]
  simp [List.findIdx?_cons]

theorem strChr_eq_none {s : Str} {chr : Char} (absent : chr ∉ s) : strChr s chr = none := by
  rw [strChr, List.findIdx?_eq_none_iff]
  rintro c mem
  rw [decide_eq_false_iff_not]
  rintro rfl
  exact absent mem

theorem length_signText (negative : Bool) : (signText negative).length = 1 := by
  cases negative <;> rfl

/-- A colon without minutes is refused. -/
def Stamp.minuteMissing (stamp : Stamp) : Prop := stamp.zoneMinute = .none true

theorem zoneOffset_text (stamp : Stamp) :
    (stamp.minuteMissing → ∃ message, zoneOffset stamp.zoneText =
      .error (.error ⟨.formatError, message⟩)) ∧
    (¬ stamp.minuteMissing →
      zoneOffset stamp.zoneText = tzOffsetSeconds stamp.tzHour stamp.zoneMinute.value) := by
  have sign := length_signText stamp.negative
  have hours := stamp.zoneHour.length
  have hour : strSubN stamp.zoneText 0 3 = signText stamp.negative ++ stamp.zoneHour.text := by
    rw [Stamp.zoneText, ← List.append_assoc, strSubN, List.drop_zero]
    exact List.take_left' (by simp [sign, hours])
  have hourColon : ':' ∉ signText stamp.negative ++ stamp.zoneHour.text := by
    intro mem
    rcases List.mem_append.mp mem with mem | mem
    · revert mem
      cases stamp.negative <;> decide
    · exact not_mem_digits stamp.zoneHour rfl mem
  have length : stamp.zoneText.length = 3 + stamp.zoneMinute.text.length := by
    simp [Stamp.zoneText, sign, hours]
    omega
  have front : (signText stamp.negative ++ stamp.zoneHour.text).length = 3 := by
    simp [sign, hours]
  rw [zoneOffset, hour, cvtZToInt_zoneHour, length]
  cases shape : stamp.zoneMinute with
  | none colon =>
    cases colon with
    | false =>
      refine ⟨fun missing => ?_, fun _ => rfl⟩
      rw [Stamp.minuteMissing, shape] at missing
      cases missing
    | true =>
      refine ⟨fun _ => ?_, fun given => absurd shape given⟩
      have found : strChr stamp.zoneText ':' = some 3 := by
        rw [Stamp.zoneText, shape, ← List.append_assoc, ← front]
        exact strChr_append hourColon
      have nothing : strSubN stamp.zoneText 4 2 = [] := by
        rw [strSubN, List.drop_eq_nil_of_le, List.take_nil]
        rw [length, shape]
        rfl
      rw [found]
      change ∃ message, ((cvtZToInt (strSubN stamp.zoneText 4 2)).bind _) = _
      rw [nothing]
      exact ⟨_, rfl⟩
  | some colon minute =>
    refine ⟨fun missing => ?_, fun _ => ?_⟩
    · rw [Stamp.minuteMissing, shape] at missing
      cases missing
    · have minutes := minute.length
      have more : 3 + (ZoneMinute.some colon minute).text.length > 3 := by
        rw [ZoneMinute.text, List.length_append, minutes]
        omega
      have read : strSubN stamp.zoneText
          (3 + if strChr stamp.zoneText ':' = none then 0 else 1) 2 = minute.text := by
        cases colon with
        | true =>
          have found : strChr stamp.zoneText ':' = some 3 := by
            rw [Stamp.zoneText, shape, ← List.append_assoc, ← front]
            exact strChr_append hourColon
          rw [found, Stamp.zoneText, shape]
          have part := @strSubN_part [signText stamp.negative, stamp.zoneHour.text, [':'],
            minute.text] _ 3 4 2 rfl (by simp [sign, hours]) minutes
          simpa [ZoneMinute.text, colonText] using part
        | false =>
          have absent : strChr stamp.zoneText ':' = none := by
            rw [Stamp.zoneText, shape, ← List.append_assoc]
            apply strChr_eq_none
            intro mem
            rcases List.mem_append.mp mem with mem | mem
            · exact hourColon mem
            · exact not_mem_digits minute rfl mem
          rw [absent, Stamp.zoneText, shape]
          have part := @strSubN_part [signText stamp.negative, stamp.zoneHour.text, minute.text] _ 2
            3 2 rfl (by simp [sign, hours]) minutes
          simpa [ZoneMinute.text, colonText] using part
      simp only [bind, Except.bind]
      rw [if_pos more, read, cvtZToInt_two]
      rfl

theorem strSubN_strSubN {s : Str} {start size total : Nat} (inside : start + size ≤ total) :
    strSubN (strSubN s 0 total) start size = strSubN s start size := by
  rw [strSubN, strSubN, strSubN, List.drop_zero, List.drop_take, List.take_take,
    Nat.min_eq_left (by omega)]

def Stamp.parts (stamp : Stamp) : List Str :=
  [stamp.year.text, ['-'], stamp.month.text, ['-'], stamp.day.text, [' '], stamp.hour.text, [':'],
    stamp.minute.text, [':'], stamp.second.text, stamp.fraction, stamp.zoneText]

theorem Stamp.text_eq (stamp : Stamp) : stamp.text = stamp.parts.flatten := by
  simp [Stamp.text, Stamp.parts]

theorem sign_not_mem_fraction (stamp : Stamp) : '+' ∉ stamp.fraction ∧ '-' ∉ stamp.fraction := by
  rcases stamp.isFraction with empty | ⟨separator, digits, shape, isSeparator, -, -, all⟩
  · rw [empty]
    exact ⟨nofun, nofun⟩
  · rw [shape]
    constructor
    · intro mem
      rcases List.mem_cons.mp mem with rfl | mem
      · rcases isSeparator with h | h <;> cases h
      · cases all _ mem
    · intro mem
      rcases List.mem_cons.mp mem with rfl | mem
      · rcases isSeparator with h | h <;> cases h
      · cases all _ mem

theorem drop_text (stamp : Stamp) : stamp.text.drop 19 = stamp.fraction ++ stamp.zoneText := by
  have split : stamp.text =
      (stamp.parts.take 11).flatten ++ (stamp.fraction ++ stamp.zoneText) := by
    rw [stamp.text_eq]
    simp [Stamp.parts]
  have length : (stamp.parts.take 11).flatten.length = 19 := by
    simp [Stamp.parts, Digits.length]
  rw [split, ← length, List.drop_left]

theorem sign_found (stamp : Stamp) :
    (strChr (stamp.text.drop 19) '+').or (strChr (stamp.text.drop 19) '-') =
      some stamp.fraction.length := by
  obtain ⟨plus, minus⟩ := sign_not_mem_fraction stamp
  rw [drop_text, Stamp.zoneText]
  cases negative : stamp.negative with
  | false =>
    have found := @strChr_append stamp.fraction (stamp.zoneHour.text ++ stamp.zoneMinute.text) '+' plus
    have sign : ∀ rest, signText false ++ rest = '+' :: rest := fun _ => rfl
    rw [sign, found]
    rfl
  | true =>
    have absent : strChr (stamp.fraction ++ '-' :: (stamp.zoneHour.text ++ stamp.zoneMinute.text))
        '+' = none := by
      apply strChr_eq_none
      intro mem
      rcases List.mem_append.mp mem with mem | mem
      · exact plus mem
      · rcases List.mem_cons.mp mem with h | mem
        · cases h
        · rcases List.mem_append.mp mem with mem | mem
          · exact not_mem_digits stamp.zoneHour rfl mem
          · revert mem
            cases stamp.zoneMinute with
            | none colon => cases colon <;> decide
            | some colon minute =>
              intro mem
              rcases List.mem_append.mp mem with mem | mem
              · revert mem
                cases colon <;> decide
              · exact not_mem_digits minute rfl mem
    have sign : ∀ rest, signText true ++ rest = '-' :: rest := fun _ => rfl
    rw [sign, absent]
    exact strChr_append minus

/-- The offset that the string denotes, in seconds. -/
def Stamp.offset (stamp : Stamp) : Int :=
  let size : Int := stamp.zoneHour.value * 3600 + stamp.zoneMinute.value * 60
  if stamp.negative then -size else size

def Stamp.seconds (stamp : Stamp) : Nat :=
  Gregorian.seconds stamp.year.value stamp.month.value stamp.day.value stamp.hour.value
    stamp.minute.value stamp.second.value

def Stamp.ValidParts (stamp : Stamp) : Prop :=
  ValidDate stamp.year.value stamp.month.value stamp.day.value ∧
    ValidTime stamp.hour.value stamp.minute.value stamp.second.value

/-- The string is refused as its form or its values are not valid. -/
def Refused (result : Except Stop Int) : Prop :=
  ∃ message, result = .error (.error ⟨.formatError, message⟩)

theorem datePartsValid_refused {year month day : Nat} (invalid : ¬ ValidDate year month day) :
    ∃ message, datePartsValid year month day = .error (.error ⟨.formatError, message⟩) := by
  have none := mt (datePartsValid_cast year month day).mp invalid
  rw [datePartsValid] at none ⊢
  split
  · rename_i valid
    rw [if_pos valid] at none
    exact absurd rfl none
  · exact ⟨_, rfl⟩

theorem timePartsValid_refused {hour minute second : Nat} (invalid : ¬ ValidTime hour minute second) :
    ∃ message, timePartsValid hour minute second = .error (.error ⟨.formatError, message⟩) := by
  have none := mt (timePartsValid_cast hour minute second).mp invalid
  rw [timePartsValid] at none ⊢
  split
  · rename_i valid
    rw [if_pos valid] at none
    exact absurd rfl none
  · exact ⟨_, rfl⟩

variable (mktime : Int → Int → Int → Int → Int → Int → Int)

theorem getEpoch_text (stamp : Stamp) : getEpoch mktime stamp.text = (do
    datePartsValid stamp.year.value stamp.month.value stamp.day.value
    timePartsValid stamp.hour.value stamp.minute.value stamp.second.value
    let offset ← zoneOffset stamp.zoneText
    epochFromParts stamp.year.value stamp.month.value stamp.day.value stamp.hour.value
      stamp.minute.value stamp.second.value offset) := by
  have form : regExpMatch expression stamp.text = true := expression_iff.mpr (.inl ⟨stamp, rfl⟩)
  have place : ∀ {k start size part}, stamp.parts[k]? = some part →
      ((stamp.parts.take k).map List.length).sum = start → part.length = size →
      start + size ≤ 19 → strSubN (strSubN stamp.text 0 19) start size = part := by
    intro k start size part at_ before length inside
    rw [strSubN_strSubN inside, stamp.text_eq]
    exact strSubN_part at_ before length
  have year := @place 0 0 4 _ rfl rfl stamp.year.length (by decide)
  have month := @place 2 5 2 _ rfl (by simp [Stamp.parts, Digits.length]) stamp.month.length
    (by decide)
  have day := @place 4 8 2 _ rfl (by simp [Stamp.parts, Digits.length]) stamp.day.length (by decide)
  have hour := @place 6 11 2 _ rfl (by simp [Stamp.parts, Digits.length]) stamp.hour.length
    (by decide)
  have minute := @place 8 14 2 _ rfl (by simp [Stamp.parts, Digits.length]) stamp.minute.length
    (by decide)
  have second := @place 10 17 2 _ rfl (by simp [Stamp.parts, Digits.length]) stamp.second.length
    (by decide)
  have zone : (stamp.text.drop 19).drop stamp.fraction.length = stamp.zoneText := by
    rw [drop_text, List.drop_left]
  rw [getEpoch, if_pos form]
  dsimp only
  rw [year, month, day, hour, minute, second, sign_found, cvtZToInt_four, cvtZToInt_two,
    cvtZToInt_two, cvtZToInt_two, cvtZToInt_two, cvtZToInt_two]
  dsimp only
  rw [zone]
  rfl

end Reading

/-! ## When the result is the instant of the string -/

section Claim

/-- The offset is beyond what is allowed, or its minutes are more than an hour has. -/
def Stamp.OffsetInvalid (stamp : Stamp) : Prop :=
  59 < stamp.zoneMinute.value ∨ stamp.offset < -43200 ∨ 50400 < stamp.offset

def GivesInstant (mktime : Int → Int → Int → Int → Int → Int → Int) (stamp : Stamp) : Prop :=
  (Refused (getEpoch mktime stamp.text) ∨
      getEpoch mktime stamp.text = .ok (stamp.seconds - stamp.offset)) ∧
    (stamp.OffsetInvalid → Refused (getEpoch mktime stamp.text))

/-- The date, the time and the offset pass the checks of the code. -/
def Stamp.Accepted (stamp : Stamp) : Prop :=
  stamp.ValidParts ∧ ¬ stamp.minuteMissing ∧ tzAllowed stamp.tzHour stamp.zoneMinute.value

variable (mktime : Int → Int → Int → Int → Int → Int → Int)

theorem getEpoch_refused {stamp : Stamp} (refused : ¬ stamp.Accepted) :
    Refused (getEpoch mktime stamp.text) := by
  rw [getEpoch_text]
  by_cases date : ValidDate stamp.year.value stamp.month.value stamp.day.value
  · rw [(datePartsValid_cast _ _ _).mpr date]
    by_cases time : ValidTime stamp.hour.value stamp.minute.value stamp.second.value
    · rw [(timePartsValid_cast _ _ _).mpr time]
      by_cases missing : stamp.minuteMissing
      · obtain ⟨message, fails⟩ := (zoneOffset_text stamp).1 missing
        rw [fails]
        exact ⟨message, rfl⟩
      · have zone : ¬ tzAllowed stamp.tzHour stamp.zoneMinute.value := fun allowed =>
          refused ⟨⟨date, time⟩, missing, allowed⟩
        rw [(zoneOffset_text stamp).2 missing, tzOffsetSeconds, tzPartsValid, if_neg zone]
        exact ⟨_, rfl⟩
    · obtain ⟨message, fails⟩ := timePartsValid_refused time
      rw [fails]
      exact ⟨message, rfl⟩
  · obtain ⟨message, fails⟩ := datePartsValid_refused date
    rw [fails]
    exact ⟨message, rfl⟩

/-- The offset of the code: the sign of the hours stands for the whole. -/
def Stamp.codeOffset (stamp : Stamp) : Int :=
  if stamp.tzHour < 0 then -(-stamp.tzHour * 3600 + stamp.zoneMinute.value * 60)
  else stamp.tzHour * 3600 + stamp.zoneMinute.value * 60

theorem getEpoch_accepted {stamp : Stamp} (accepted : stamp.Accepted) :
    getEpoch mktime stamp.text =
      if (stamp.seconds : Int) - stamp.codeOffset ≤ 2147483647 then
        .ok (stamp.seconds - stamp.codeOffset)
      else .error .overflow := by
  obtain ⟨⟨date, time⟩, given, allowed⟩ := accepted
  have minute : stamp.zoneMinute.value < 100 := by
    cases stamp.zoneMinute with
    | none colon => exact Nat.zero_lt_succ _
    | some colon minute => exact minute.value_lt
  have hour : stamp.tzHour ≥ -12 ∧ stamp.tzHour ≤ 14 := by
    rcases allowed with h | h | h <;> omega
  have bounds : -86400 ≤ stamp.codeOffset ∧ stamp.codeOffset ≤ 86400 := by
    rw [Stamp.codeOffset]
    split <;> omega
  have offset : zoneOffset stamp.zoneText = .ok stamp.codeOffset := by
    rw [(zoneOffset_text stamp).2 given, tzOffsetSeconds, tzPartsValid, if_pos allowed,
      Stamp.codeOffset]
    change (if stamp.tzHour < 0 then _ else _) = _
    split
    · exact congrArg Except.ok (by omega)
    · exact congrArg Except.ok (by omega)
  rw [getEpoch_text, (datePartsValid_cast _ _ _).mpr date, (timePartsValid_cast _ _ _).mpr time,
    offset]
  exact epochFromParts_cast date time bounds

/-- The sign is lost exactly when minutes follow minus zero hours. -/
theorem codeOffset_eq_iff (stamp : Stamp) : stamp.codeOffset = stamp.offset ↔
    (stamp.negative = true → stamp.zoneHour.value = 0 → stamp.zoneMinute.value = 0) := by
  rw [Stamp.codeOffset, Stamp.offset, Stamp.tzHour]
  cases stamp.negative with
  | true =>
    simp only [if_true, true_implies]
    split
    · omega
    · omega
  | false =>
    simp only [Bool.false_eq_true, if_false, false_implies, iff_true]
    rw [if_neg (by omega)]

theorem offset_valid {stamp : Stamp} (accepted : stamp.Accepted)
    (minutes : stamp.zoneMinute.value ≤ 59) : ¬ stamp.OffsetInvalid := by
  obtain ⟨-, -, allowed⟩ := accepted
  rw [Stamp.OffsetInvalid, Stamp.offset]
  rw [tzAllowed, Stamp.tzHour] at allowed
  cases negative : stamp.negative with
  | true =>
    simp only [negative, if_true] at allowed ⊢
    omega
  | false =>
    simp only [negative, Bool.false_eq_true, if_false] at allowed ⊢
    omega

/-- Minutes above 59 are let through in steps of 15, the sign of minus zero hours is lost, and
the seconds are counted up to 2038 only. Otherwise the result is the instant of the string. -/
theorem getEpoch_instant_iff (stamp : Stamp) : GivesInstant mktime stamp ↔
    ¬ stamp.Accepted ∨
      (stamp.zoneMinute.value ≤ 59 ∧
        (stamp.negative = true → stamp.zoneHour.value = 0 → stamp.zoneMinute.value = 0) ∧
        (stamp.seconds : Int) - stamp.offset ≤ 2147483647) := by
  by_cases accepted : stamp.Accepted
  · rw [or_iff_right (not_not_intro accepted), ← codeOffset_eq_iff]
    have result := getEpoch_accepted mktime accepted
    have passes : ¬ Refused (getEpoch mktime stamp.text) := by
      rintro ⟨message, refused⟩
      rw [result] at refused
      split at refused <;> cases refused
    constructor
    · rintro ⟨gives, refuses⟩
      have minutes : stamp.zoneMinute.value ≤ 59 := by
        by_contra more
        exact passes (refuses (.inl (by omega)))
      have value := gives.resolve_left passes
      rw [result] at value
      split at value
      · rename_i fits
        have same := Except.ok.inj value
        have equal : stamp.codeOffset = stamp.offset := by omega
        exact ⟨minutes, equal, by omega⟩
      · cases value
    · rintro ⟨minutes, same, fits⟩
      refine ⟨.inr ?_, fun invalid => absurd invalid (offset_valid accepted minutes)⟩
      rw [result, same, if_pos fits]
  · have refused := getEpoch_refused mktime accepted
    exact iff_of_true ⟨.inl refused, fun _ => refused⟩ (.inl accepted)

/-- `2020-01-01 00:00:00-00:30` -/
def minusHalfHour : Stamp where
  year := ⟨"2020".toList, rfl, List.all_eq_true.mp rfl⟩
  month := ⟨"01".toList, rfl, List.all_eq_true.mp rfl⟩
  day := ⟨"01".toList, rfl, List.all_eq_true.mp rfl⟩
  hour := ⟨"00".toList, rfl, List.all_eq_true.mp rfl⟩
  minute := ⟨"00".toList, rfl, List.all_eq_true.mp rfl⟩
  second := ⟨"00".toList, rfl, List.all_eq_true.mp rfl⟩
  fraction := []
  isFraction := .inl rfl
  negative := true
  zoneHour := ⟨"00".toList, rfl, List.all_eq_true.mp rfl⟩
  zoneMinute := .some true ⟨"30".toList, rfl, List.all_eq_true.mp rfl⟩

/-- The instant is half an hour after midnight, the result half an hour before. -/
theorem getEpoch_minusHalfHour :
    minusHalfHour.text = "2020-01-01 00:00:00-00:30".toList ∧
      (minusHalfHour.seconds : Int) - minusHalfHour.offset = 1577838600 ∧
      getEpoch (fun _ _ _ _ _ _ => 0) minusHalfHour.text = .ok 1577835000 ∧
      ¬ GivesInstant (fun _ _ _ _ _ _ => 0) minusHalfHour := by
  have value : getEpoch (fun _ _ _ _ _ _ => 0) minusHalfHour.text = .ok 1577835000 := by
    have accepted : minusHalfHour.Accepted := ⟨⟨by decide, by decide⟩, nofun, by decide⟩
    have fits : (minusHalfHour.seconds : Int) - minusHalfHour.codeOffset = 1577835000 := by
      decide +kernel
    rw [getEpoch_accepted _ accepted, fits]
    rfl
  have exact : (minusHalfHour.seconds : Int) - minusHalfHour.offset = 1577838600 := by
    decide +kernel
  refine ⟨by decide, exact, value, fun gives => ?_⟩
  rcases gives.1 with ⟨message, refused⟩ | same
  · rw [value] at refused
    cases refused
  · rw [value, exact] at same
    cases same

end Claim

end GetEpoch
