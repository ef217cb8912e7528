import Mathlib.Data.List.GetD
import Backrest.ArchiveAsync
import Backrest.CheckedInt
import Backrest.Convert
import Backrest.Gregorian

/-!
# Time from its parts

`epochFromParts` computes the seconds since 1970 with a closed formula. The formula is
evaluated in `int`, so it is undefined from 2038-01-19 03:14:08 on. The dates of HTTP
headers are read with it.
-/

namespace Time

open Text Convert CheckedInt Gregorian

/-- A function throws, or its arithmetic leaves the range of `int`. -/
inductive Stop where
  | error (e : Error)
  | overflow

def yearIsLeap (year : Int) : Bool :=
  (year.tmod 4 == 0 && year.tmod 100 != 0) || year.tmod 400 == 0

def daysPerMonth (year : Int) : List Int :=
  if yearIsLeap year then [31, 29, 31, 30, 31, 30, 31, 31, 30, 31, 30, 31]
  else [31, 28, 31, 30, 31, 30, 31, 31, 30, 31, 30, 31]

def cumulativeDaysPerMonth (year : Int) : List Int :=
  if yearIsLeap year then [0, 31, 60, 91, 121, 152, 182, 213, 244, 274, 305, 335]
  else [0, 31, 59, 90, 120, 151, 181, 212, 243, 273, 304, 334]

def datePartsValid (year month day : Int) : Except Stop Unit :=
  if year ≥ 1970 ∧ month > 0 ∧ month ≤ 12 ∧ day > 0 ∧
      day ≤ (daysPerMonth year).getD (month - 1).toNat 0 then .ok ()
  else .error (.error ⟨.formatError, "invalid date ".toList ++ fmtZero 4 year ++
    '-' :: fmtZero 2 month ++ '-' :: fmtZero 2 day⟩)

def timePartsValid (hour minute second : Int) : Except Stop Unit :=
  if hour ≥ 0 ∧ hour < 24 ∧ minute ≥ 0 ∧ minute < 60 ∧ second ≥ 0 ∧ second < 60 then .ok ()
  else .error (.error ⟨.formatError, "invalid time ".toList ++ fmtZero 2 hour ++
    ':' :: fmtZero 2 minute ++ ':' :: fmtZero 2 second⟩)

/-- The time zones that `tzPartsValid` lets through. -/
def tzAllowed (tzHour tzMinute : Int) : Prop :=
  ((tzHour > -12 ∧ tzHour < 14) ∧ tzMinute.tmod 15 = 0) ∨ (tzHour = -12 ∧ tzMinute = 0) ∨
    (tzHour = 14 ∧ tzMinute = 0)

instance (tzHour tzMinute : Int) : Decidable (tzAllowed tzHour tzMinute) :=
  inferInstanceAs (Decidable (_ ∨ _))

def tzPartsValid (tzHour tzMinute : Int) : Except Stop Unit :=
  if tzAllowed tzHour tzMinute then .ok ()
  else .error (.error ⟨.formatError,
    "invalid timezone ".toList ++ fmtZero 2 tzHour ++ fmtZero 2 tzMinute⟩)

def tzOffsetSeconds (tzHour tzMinute : Int) : Except Stop Int := do
  tzPartsValid tzHour tzMinute
  if tzHour < 0 then .ok (-1 * (-1 * tzHour * 3600 + tzMinute * 60))
  else .ok (1 * (tzHour * 3600 + tzMinute * 60))

def dayOfYear (year month day : Int) : Except Stop Int := do
  datePartsValid year month day
  .ok ((cumulativeDaysPerMonth year).getD (month - 1).toNat 0 + day)

/-- The formula as it is written. -/
def epochExp (year dayOfYear hour minute second tzOffsetSecond : Int) : Exp :=
  .add (.sub (.add (.add (.add (.add (.add (.add
    (.mul (.lit (-1)) (.lit tzOffsetSecond))
    (.lit second))
    (.mul (.lit minute) (.lit 60)))
    (.mul (.lit hour) (.lit 3600)))
    (.mul (.sub (.lit dayOfYear) (.lit 1)) (.lit 86400)))
    (.mul (.sub (.sub (.lit year) (.lit 1900)) (.lit 70)) (.lit 31536000)))
    (.mul (.div (.sub (.sub (.lit year) (.lit 1900)) (.lit 69)) 4) (.lit 86400)))
    (.mul (.div (.sub (.sub (.lit year) (.lit 1900)) (.lit 1)) 100) (.lit 86400)))
    (.mul (.div (.add (.sub (.lit year) (.lit 1900)) (.lit 299)) 400) (.lit 86400))

def epochFromParts (year month day hour minute second tzOffsetSecond : Int) : Except Stop Int := do
  timePartsValid hour minute second
  let dayOfYear ← dayOfYear year month day
  match (epochExp year dayOfYear hour minute second tzOffsetSecond).eval int32 with
  | some epoch => .ok epoch
  | none => .error .overflow

/-- `cvtZToInt`: an optional sign and decimal digits. -/
def cvtZToInt (value : Str) : Except Stop Int :=
  match ArchiveAsync.cvtZToInt value with
  | .ok n => .ok n
  | .error failure => .error (.error ⟨.formatError, failure.message⟩)

/-! ## The formula counts the calendar -/

theorem yearIsLeap_cast (year : Nat) : yearIsLeap year = isLeap year := by
  have rem : ∀ n : Nat, (year : Int).tmod n = ((year % n : Nat) : Int) := fun n =>
    (Int.ofNat_tmod year n).symm
  have zero : ∀ n : Nat, (((year % n : Nat) : Int) == 0) = (year % n == 0) := by
    intro n
    rw [Bool.eq_iff_iff, beq_iff_eq, beq_iff_eq]
    omega
  have h4 := rem 4
  have h100 := rem 100
  have h400 := rem 400
  push_cast at h4 h100 h400
  rw [yearIsLeap, isLeap, h4, h100, h400]
  have z4 := zero 4
  have z100 := zero 100
  have z400 := zero 400
  push_cast at z4 z100 z400
  rw [z4, z400, bne, bne, z100]

theorem daysPerMonth_cast (year month : Nat) :
    (daysPerMonth year).getD (month - 1) 0 = ((monthDays year).getD (month - 1) 0 : Nat) := by
  have table : daysPerMonth year = (monthDays year).map (fun n : Nat => (n : Int)) := by
    rw [daysPerMonth, yearIsLeap_cast, monthDays]
    cases isLeap year <;> rfl
  rw [table]
  exact List.getD_map _ _ (fun n : Nat => (n : Int))

theorem datePartsValid_cast (year month day : Nat) :
    datePartsValid year month day = .ok () ↔ ValidDate year month day := by
  have index : ((month : Int) - 1).toNat = month - 1 := by omega
  rw [datePartsValid, index, daysPerMonth_cast, ValidDate]
  split
  · rename_i valid
    simp only [true_iff]
    omega
  · rename_i invalid
    simp only [reduceCtorEq, false_iff]
    omega

theorem timePartsValid_cast (hour minute second : Nat) :
    timePartsValid hour minute second = .ok () ↔ ValidTime hour minute second := by
  rw [timePartsValid, ValidTime]
  split
  · rename_i valid
    simp only [true_iff]
    omega
  · rename_i invalid
    simp only [reduceCtorEq, false_iff]
    omega

theorem dayOfYear_cast {year month day : Nat} (valid : ValidDate year month day) :
    dayOfYear year month day = .ok ((daysBeforeMonth year month + day : Nat) : Int) := by
  have index : ((month : Int) - 1).toNat = month - 1 := by omega
  have table : (cumulativeDaysPerMonth year).getD (month - 1) 0 =
      (daysBeforeMonth year month : Nat) := by
    obtain ⟨-, lower, upper, -, -⟩ := valid
    rw [cumulativeDaysPerMonth, yearIsLeap_cast, daysBeforeMonth, monthDays]
    cases isLeap year with
    | true => interval_cases month <;> rfl
    | false => interval_cases month <;> rfl
  rw [dayOfYear, (datePartsValid_cast year month day).mpr valid, index, table]
  exact congrArg Except.ok (by push_cast; rfl)

/-- The formula counts the seconds of the calendar. -/
theorem epochExp_value {year month day hour minute second : Nat}
    (valid : ValidDate year month day) (tzOffsetSecond : Int) :
    (epochExp year ((daysBeforeMonth year month + day : Nat) : Int) hour minute second
      tzOffsetSecond).value = seconds year month day hour minute second - tzOffsetSecond := by
  have closed := daysOfYears_closed (year - 1970)
  obtain ⟨base, -, -, first, -⟩ := valid
  simp only [epochExp, Exp.value, seconds, days]
  rw [Int.tdiv_eq_ediv_of_nonneg (by omega), Int.tdiv_eq_ediv_of_nonneg (by omega),
    Int.tdiv_eq_ediv_of_nonneg (by omega)]
  omega

/-- No part leaves the range of `int` when the result does not. -/
theorem epochExp_within {year month day hour minute second : Nat}
    (date : ValidDate year month day) (time : ValidTime hour minute second) {tzOffsetSecond : Int}
    (offset : -86400 ≤ tzOffsetSecond ∧ tzOffsetSecond ≤ 86400) :
    (epochExp year ((daysBeforeMonth year month + day : Nat) : Int) hour minute second
        tzOffsetSecond).Within int32 ↔
      (seconds year month day hour minute second : Int) - tzOffsetSecond ≤ 2147483647 := by
  have value := @epochExp_value year month day hour minute second date tzOffsetSecond
  have closed := daysOfYears_closed (year - 1970)
  have inYear := daysBeforeMonth_le date
  obtain ⟨base, -, -, first, -⟩ := date
  obtain ⟨hours, minutes, secs⟩ := time
  have yearDays : daysOfYear year ≤ 366 := by
    rw [daysOfYear]
    split <;> omega
  constructor
  · intro within
    rw [← value]
    exact within.2.2.2
  · intro fits
    have early : year ≤ 2038 := by
      simp only [seconds, days] at fits
      omega
    -- Up to 2038 the centuries are corrected as often as every fourth of them.
    have centuries : (year - 1970 + 69) / 100 = (year - 1970 + 369) / 400 := by omega
    have h4 : ((year : Int) - 1900 - 69).tdiv 4 = ((year - 1970 + 1) / 4 : Nat) := by
      rw [Int.tdiv_eq_ediv_of_nonneg (by omega)]
      omega
    have h100 : ((year : Int) - 1900 - 1).tdiv 100 = ((year - 1970 + 369) / 400 : Nat) := by
      rw [Int.tdiv_eq_ediv_of_nonneg (by omega)]
      omega
    have h400 : ((year : Int) - 1900 + 299).tdiv 400 = ((year - 1970 + 369) / 400 : Nat) := by
      rw [Int.tdiv_eq_ediv_of_nonneg (by omega)]
      omega
    have few : (year - 1970 + 369) / 400 ≤ 1 := by omega
    have quarters : (year - 1970 + 1) / 4 ≤ 18 := by omega
    rw [centuries] at closed
    simp only [epochExp, Exp.Within, Exp.value, Width.Holds, int32, seconds, days, h4, h100,
      h400] at fits ⊢
    generalize (year - 1970 + 369) / 400 = q400 at *
    generalize (year - 1970 + 1) / 4 = q4 at *
    omega

/-- The seconds of the calendar, unless they do not fit `int`. -/
theorem epochFromParts_cast {year month day hour minute second : Nat}
    (date : ValidDate year month day) (time : ValidTime hour minute second) {tzOffsetSecond : Int}
    (offset : -86400 ≤ tzOffsetSecond ∧ tzOffsetSecond ≤ 86400) :
    epochFromParts year month day hour minute second tzOffsetSecond =
      if (seconds year month day hour minute second : Int) - tzOffsetSecond ≤ 2147483647 then
        .ok (seconds year month day hour minute second - tzOffsetSecond)
      else .error .overflow := by
  rw [epochFromParts, (timePartsValid_cast hour minute second).mpr time, dayOfYear_cast date]
  by_cases fits : (seconds year month day hour minute second : Int) - tzOffsetSecond ≤ 2147483647
  · rw [if_pos fits]
    have result := Exp.eval_eq_some.mpr
      ⟨(epochExp_within date time offset).mpr fits, @epochExp_value year month day hour minute second
        date tzOffsetSecond⟩
    simp only [bind, Except.bind, result]
  · rw [if_neg fits]
    have none : (epochExp year ((daysBeforeMonth year month + day : Nat) : Int) hour minute second
        tzOffsetSecond).eval int32 = none := by
      rw [Option.eq_none_iff_forall_ne_some]
      intro v some
      exact fits ((epochExp_within date time offset).mp (Exp.eval_eq_some.mp some).1)
    simp only [bind, Except.bind, none]

/-! ## Reading numbers -/

theorem cvtZToInt_of_digits {value digits : Str} {negative : Bool} (some : digits ≠ [])
    (all : ∀ c ∈ digits, c.isDigit = true) (fits : cvtDigits digits ≤ 2147483647)
    (sign : value = (if negative then ['-'] else ['+']) ++ digits ∨
      value = digits ∧ negative = false) :
    cvtZToInt value = .ok (if negative then -(cvtDigits digits : Int) else cvtDigits digits) := by
  have nonempty : digits.isEmpty = false := by
    rw [List.isEmpty_eq_false_iff]
    exact some
  have digit : digits.all BackupCommon.isDigit = true := List.all_eq_true.mpr all
  have positive : ¬ ((cvtDigits digits : Int) > 2147483647) := by omega
  have above : ¬ ((cvtDigits digits : Int) < -2147483648) := by omega
  have positive' : ¬ (-(cvtDigits digits : Int) > 2147483647) := by omega
  have above' : ¬ (-(cvtDigits digits : Int) < -2147483648) := by omega
  rcases sign with rfl | ⟨rfl, rfl⟩
  · cases negative with
    | true => simp [cvtZToInt, ArchiveAsync.cvtZToInt, nonempty, digit, positive', above']
    | false => simp [cvtZToInt, ArchiveAsync.cvtZToInt, nonempty, digit, positive, above]
  · cases value with
    | nil => exact absurd rfl some
    | cons c rest =>
      have isDigit := all c List.mem_cons_self
      have minus : c ≠ '-' := by
        rintro rfl
        cases isDigit
      have plus : c ≠ '+' := by
        rintro rfl
        cases isDigit
      simp [cvtZToInt, ArchiveAsync.cvtZToInt, nonempty, digit, positive, above, minus, plus]

theorem cvtZToInt_digits {digits : Str} (some : digits ≠ []) (all : ∀ c ∈ digits, c.isDigit = true)
    (fits : cvtDigits digits ≤ 2147483647) : cvtZToInt digits = .ok (cvtDigits digits) :=
  cvtZToInt_of_digits some all fits (.inr ⟨rfl, rfl⟩)

end Time
