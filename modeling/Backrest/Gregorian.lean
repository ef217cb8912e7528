import Mathlib.Data.Int.Basic
import Mathlib.Tactic.IntervalCases

/-!
# Counting days in the Gregorian calendar

The calendar is counted year by year and month by month from the first day of a base
year. The closed form of the count of years has the three corrections for leap years.
-/

namespace Gregorian

def isLeap (year : Nat) : Bool := (year % 4 == 0 && year % 100 != 0) || year % 400 == 0

def daysOfYear (year : Nat) : Nat := if isLeap year then 366 else 365

def monthDays (year : Nat) : List Nat :=
  [31, if isLeap year then 29 else 28, 31, 30, 31, 30, 31, 31, 30, 31, 30, 31]

def daysOfYears : Nat → Nat
  | 0 => 0
  | years + 1 => daysOfYears years + daysOfYear (1970 + years)

def daysBeforeMonth (year month : Nat) : Nat := ((monthDays year).take (month - 1)).sum

def ValidDate (year month day : Nat) : Prop :=
  1970 ≤ year ∧ 1 ≤ month ∧ month ≤ 12 ∧ 1 ≤ day ∧ day ≤ (monthDays year).getD (month - 1) 0

instance (year month day : Nat) : Decidable (ValidDate year month day) :=
  inferInstanceAs (Decidable (_ ∧ _))

def ValidTime (hour minute second : Nat) : Prop := hour < 24 ∧ minute < 60 ∧ second < 60

instance (hour minute second : Nat) : Decidable (ValidTime hour minute second) :=
  inferInstanceAs (Decidable (_ ∧ _))

def days (year month day : Nat) : Nat :=
  daysOfYears (year - 1970) + daysBeforeMonth year month + (day - 1)

/-- The number of seconds from 1970-01-01 00:00:00 to a time of a day. -/
def seconds (year month day hour minute second : Nat) : Nat :=
  days year month day * 86400 + hour * 3600 + minute * 60 + second

/-- The leap days of the years are those of every fourth year without the centuries but
with every fourth century. -/
theorem daysOfYears_closed (years : Nat) :
    daysOfYears years + (years + 69) / 100 = years * 365 + (years + 1) / 4 + (years + 369) / 400 := by
  induction years with
  | zero => rfl
  | succ years ih =>
    -- each correction grows by one in a year that it is about
    have fourth : (years + 1 + 1) / 4 =
        (years + 1) / 4 + if (1970 + years) % 4 = 0 then 1 else 0 := by split <;> omega
    have century : (years + 1 + 69) / 100 =
        (years + 69) / 100 + if (1970 + years) % 100 = 0 then 1 else 0 := by split <;> omega
    have fourCenturies : (years + 1 + 369) / 400 =
        (years + 369) / 400 + if (1970 + years) % 400 = 0 then 1 else 0 := by split <;> omega
    have isCentury : (1970 + years) % 400 = 0 → (1970 + years) % 100 = 0 := by omega
    have isFourth : (1970 + years) % 100 = 0 → (1970 + years) % 4 = 0 := by omega
    rw [daysOfYears, daysOfYear, fourth, century, fourCenturies]
    clear fourth century fourCenturies
    by_cases leap : isLeap (1970 + years) = true
    · rw [if_pos leap]
      simp only [isLeap, Bool.or_eq_true, Bool.and_eq_true, beq_iff_eq, bne_iff_ne] at leap
      split_ifs <;> omega
    · rw [if_neg leap]
      simp only [isLeap, Bool.or_eq_true, Bool.and_eq_true, beq_iff_eq, bne_iff_ne] at leap
      split_ifs <;> omega

theorem daysBeforeMonth_le {year month day : Nat} (valid : ValidDate year month day) :
    daysBeforeMonth year month + day ≤ daysOfYear year := by
  obtain ⟨-, lower, upper, first, last⟩ := valid
  rw [daysBeforeMonth, daysOfYear]
  cases leap : isLeap year with
  | true =>
    simp only [monthDays, leap, if_true] at last ⊢
    interval_cases month <;> simp_all <;> omega
  | false =>
    simp only [monthDays, leap] at last ⊢
    interval_cases month <;> simp_all <;> omega

theorem day_le {year month day : Nat} (valid : ValidDate year month day) : day ≤ 31 := by
  obtain ⟨-, lower, upper, -, last⟩ := valid
  rw [monthDays] at last
  cases leap : isLeap year with
  | true => interval_cases month <;> simp_all <;> omega
  | false => interval_cases month <;> simp_all <;> omega

end Gregorian
