import Mathlib.Data.List.GetD
import Backrest.Time

/-!
# Dates of HTTP headers

`httpDateFromTime` prints a time as HTTP does and `httpDateToTime` reads it back. What
`gmtime` returns is taken as it is. Both directions go through the parts of the time, so
the reading ends where the formula for the seconds does.
-/

namespace HttpDate

open Text Convert Gregorian Time

/-- What `gmtime` returns of a time. Months and days of the week start at zero. -/
structure Tm where
  wday : Nat
  mday : Nat
  mon : Nat
  year : Nat
  hour : Nat
  min : Nat
  sec : Nat

def httpCommonMonthList : List Str :=
  ["Jan".toList, "Feb".toList, "Mar".toList, "Apr".toList, "May".toList, "Jun".toList,
    "Jul".toList, "Aug".toList, "Sep".toList, "Oct".toList, "Nov".toList, "Dec".toList]

def httpCommonDayList : List Str :=
  ["Sun".toList, "Mon".toList, "Tue".toList, "Wed".toList, "Thu".toList, "Fri".toList,
    "Sat".toList]

/-- The name of a month, which has three letters. -/
def monthName (mon : Nat) : Str := httpCommonMonthList.getD mon []

def dayName (wday : Nat) : Str := httpCommonDayList.getD wday []

def httpDateToTime (lastModified : Str) : Except Stop Int := do
  let month := strSubN lastModified 8 3
  let monthIdx := httpCommonMonthList.findIdx (· = month)
  if monthIdx = httpCommonMonthList.length then
    .error (.error ⟨.formatError, "invalid month '".toList ++ month ++ ['\'']⟩)
  else do
    let year ← cvtZToInt (strSubN lastModified 12 4)
    let day ← cvtZToInt (strSubN lastModified 5 2)
    let hour ← cvtZToInt (strSubN lastModified 17 2)
    let minute ← cvtZToInt (strSubN lastModified 20 2)
    let second ← cvtZToInt (strSubN lastModified 23 2)
    epochFromParts year (monthIdx + 1) day hour minute second 0

def httpDateFromTime (gmtime : Int → Tm) (time : Int) : Str :=
  let timePart := gmtime time
  dayName timePart.wday ++ ", ".toList ++ fmtZero 2 timePart.mday ++
    ' ' :: monthName timePart.mon ++ ' ' :: fmtZero 4 (timePart.year + 1900) ++
    ' ' :: fmtZero 2 timePart.hour ++ ':' :: fmtZero 2 timePart.min ++
    ':' :: fmtZero 2 timePart.sec ++ " GMT".toList

/-- The parts are of a time in the Gregorian calendar. -/
def Denotes (timePart : Tm) (time : Int) : Prop :=
  timePart.wday < 7 ∧ ValidDate (timePart.year + 1900) (timePart.mon + 1) timePart.mday ∧
    ValidTime timePart.hour timePart.min timePart.sec ∧
    (seconds (timePart.year + 1900) (timePart.mon + 1) timePart.mday timePart.hour timePart.min
      timePart.sec : Int) = time

/-- The first second after the year 9999. -/
def year10000 : Int := 253402300800

theorem year_lt {year month day hour minute second : Nat}
    (before : (seconds year month day hour minute second : Int) < year10000) : year < 10000 := by
  have closed := daysOfYears_closed (year - 1970)
  simp only [seconds, days, year10000] at before
  omega

theorem length_monthList {mon : Nat} (valid : mon < 12) :
    (monthName mon).length = 3 ∧
      httpCommonMonthList.findIdx (· = monthName mon) = mon := by
  interval_cases mon <;> decide

theorem length_dayList {wday : Nat} (valid : wday < 7) :
    (dayName wday).length = 3 := by
  interval_cases wday <;> rfl

def dateParts (timePart : Tm) : List Str :=
  [dayName timePart.wday, ", ".toList, fmtZero 2 timePart.mday, [' '],
    monthName timePart.mon, [' '], fmtZero 4 (timePart.year + 1900 : Nat), [' '],
    fmtZero 2 timePart.hour, [':'], fmtZero 2 timePart.min, [':'], fmtZero 2 timePart.sec,
    " GMT".toList]

theorem httpDateFromTime_eq (gmtime : Int → Tm) (time : Int) :
    httpDateFromTime gmtime time = (dateParts (gmtime time)).flatten := by
  simp [httpDateFromTime, dateParts]

theorem cvtZToInt_fmtZero {width n : Nat} (fits : n < 10 ^ width) (wide : 0 < width)
    (small : n ≤ 2147483647) : cvtZToInt (fmtZero width n) = .ok n := by
  obtain ⟨length, digits, value⟩ := fmtZero_cast fits wide
  have some : fmtZero width n ≠ [] := by
    rw [← List.length_pos_iff, length]
    exact wide
  rw [cvtZToInt_digits some digits (by rw [value]; exact small), value]

/-- A printed date is read as its parts. -/
theorem httpDateToTime_fromTime {gmtime : Int → Tm} {time : Int}
    (denotes : Denotes (gmtime time) time) (before : time < year10000) :
    httpDateToTime (httpDateFromTime gmtime time) =
      if time ≤ 2147483647 then .ok time else .error .overflow := by
  obtain ⟨wday, date, clock, count⟩ := denotes
  rw [httpDateFromTime_eq]
  generalize gmtime time = timePart at *
  have base := date.1
  have year := year_lt (by rw [count]; exact before)
  have month : timePart.mon < 12 := by
    have upper := date.2.2.1
    omega
  have day : timePart.mday < 10 ^ 2 := (day_le date).trans_lt (by decide)
  obtain ⟨hours, minutes, secs⟩ := clock
  have ly := (@fmtZero_cast 4 (timePart.year + 1900) (by omega) (by decide)).1
  have ly' : (fmtZero 4 (timePart.year + 1900)).length = 4 := by exact_mod_cast ly
  have ld := (@fmtZero_cast 2 timePart.mday day (by decide)).1
  have lh := (@fmtZero_cast 2 timePart.hour (by omega) (by decide)).1
  have lm := (@fmtZero_cast 2 timePart.min (by omega) (by decide)).1
  have ls := (@fmtZero_cast 2 timePart.sec (by omega) (by decide)).1
  obtain ⟨lmon, found⟩ := length_monthList month
  have lday := length_dayList wday
  have atMonth : strSubN (dateParts timePart).flatten 8 3 = monthName timePart.mon :=
    @strSubN_part _ _ 4 _ _ rfl (by simp [dateParts, lday, ld]) lmon
  have atYear : strSubN (dateParts timePart).flatten 12 4 = fmtZero 4 (timePart.year + 1900 : Nat) :=
    @strSubN_part _ _ 6 _ _ rfl (by simp [dateParts, lday, ld, lmon]) ly
  have atDay : strSubN (dateParts timePart).flatten 5 2 = fmtZero 2 timePart.mday :=
    @strSubN_part _ _ 2 _ _ rfl (by simp [dateParts, lday]) ld
  have atHour : strSubN (dateParts timePart).flatten 17 2 = fmtZero 2 timePart.hour :=
    @strSubN_part _ _ 8 _ _ rfl (by simp [dateParts, lday, ld, lmon, ly']) lh
  have atMinute : strSubN (dateParts timePart).flatten 20 2 = fmtZero 2 timePart.min :=
    @strSubN_part _ _ 10 _ _ rfl (by simp [dateParts, lday, ld, lmon, ly', lh]) lm
  have atSecond : strSubN (dateParts timePart).flatten 23 2 = fmtZero 2 timePart.sec :=
    @strSubN_part _ _ 12 _ _ rfl (by simp [dateParts, lday, ld, lmon, ly', lh, lm]) ls
  have index : ¬ timePart.mon = httpCommonMonthList.length := by
    change ¬ timePart.mon = 12
    omega
  have result := @epochFromParts_cast _ _ _ _ _ _ date ⟨hours, minutes, secs⟩ 0 (by decide)
  rw [httpDateToTime, atMonth, atYear, atDay, atHour, atMinute, atSecond]
  rw [found, if_neg index, cvtZToInt_fmtZero (by omega) (by decide) (by omega),
    cvtZToInt_fmtZero day (by decide) (by omega), cvtZToInt_fmtZero (by omega) (by decide) (by omega),
    cvtZToInt_fmtZero (by omega) (by decide) (by omega),
    cvtZToInt_fmtZero (by omega) (by decide) (by omega)]
  change epochFromParts _ (timePart.mon + 1) _ _ _ _ 0 = _
  rw [Int.sub_zero, count] at result
  exact_mod_cast result

/-- The seconds are counted, and a printed date is read back, exactly up to 2038-01-19
03:14:07. -/
theorem epochFromParts_exact_iff {year month day hour minute second : Nat}
    (date : ValidDate year month day) (clock : ValidTime hour minute second)
    {gmtime : Int → Tm} {time : Int} (before : time < year10000) (denotes : Denotes (gmtime time) time) :
    (epochFromParts year month day hour minute second 0 =
        .ok (seconds year month day hour minute second) ↔
      seconds year month day hour minute second ≤ 2147483647) ∧
    (httpDateToTime (httpDateFromTime gmtime time) = .ok time ↔ time ≤ 2147483647) := by
  constructor
  · rw [@epochFromParts_cast _ _ _ _ _ _ date clock 0 (by decide), Int.sub_zero]
    by_cases fits : seconds year month day hour minute second ≤ 2147483647
    · rw [if_pos (by exact_mod_cast fits)]
      exact iff_of_true rfl fits
    · rw [if_neg (by exact_mod_cast fits)]
      exact iff_of_false nofun fits
  · rw [httpDateToTime_fromTime denotes before]
    by_cases fits : time ≤ 2147483647
    · rw [if_pos fits]
      exact iff_of_true rfl fits
    · rw [if_neg fits]
      exact iff_of_false nofun fits

/-- `gmtime` of the last second that fits and the one after it. -/
def gmtime2038 (time : Int) : Tm where
  wday := 2
  mday := 19
  mon := 0
  year := 138
  hour := 3
  min := 14
  sec := if time ≤ 2147483647 then 7 else 8

theorem epochFromParts_last :
    epochFromParts 2038 1 19 3 14 7 0 = .ok 2147483647 ∧
      httpDateToTime (httpDateFromTime gmtime2038 2147483647) = .ok 2147483647 := by
  have exact := @epochFromParts_exact_iff 2038 1 19 3 14 7 (by decide) (by decide)
    gmtime2038 2147483647 (by decide) ⟨by decide, by decide, by decide, by decide⟩
  exact ⟨exact.1.mpr (by decide), exact.2.mpr (by decide)⟩

/-- One second later the sum does not fit. -/
theorem epochFromParts_overflow :
    ValidDate 2038 1 19 ∧ ValidTime 3 14 8 ∧ seconds 2038 1 19 3 14 8 = 2147483648 ∧
      epochFromParts 2038 1 19 3 14 8 0 = .error .overflow ∧
      Denotes (gmtime2038 2147483648) 2147483648 ∧
      httpDateToTime (httpDateFromTime gmtime2038 2147483648) = .error .overflow := by
  refine ⟨by decide, by decide, by decide, ?_, ⟨by decide, by decide, by decide, by decide⟩, ?_⟩
  · rfl
  · rfl

end HttpDate
