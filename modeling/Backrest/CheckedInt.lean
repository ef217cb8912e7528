import Mathlib.Data.Int.Basic

/-!
# Integer expressions of a fixed width

An expression is evaluated in a signed type. A value outside the type, at any place of
the expression, leaves the result undefined. `value` is the value over the integers, and
`eval` returns it exactly when every part is within the type.
-/

namespace CheckedInt

inductive Exp where
  | lit (n : Int)
  | add (a b : Exp)
  | sub (a b : Exp)
  | mul (a b : Exp)
  /-- Division towards zero by a constant. -/
  | div (a : Exp) (n : Int)

/-- The least and the greatest value of a type. -/
structure Width where
  least : Int
  greatest : Int

def Width.Holds (width : Width) (n : Int) : Prop := width.least ≤ n ∧ n ≤ width.greatest

instance (width : Width) (n : Int) : Decidable (width.Holds n) := inferInstanceAs (Decidable (_ ∧ _))

def int32 : Width := ⟨-2147483648, 2147483647⟩

namespace Exp

def value : Exp → Int
  | lit n => n
  | add a b => a.value + b.value
  | sub a b => a.value - b.value
  | mul a b => a.value * b.value
  | div a n => a.value.tdiv n

/-- Every part of the expression is within the type. -/
def Within (width : Width) : Exp → Prop
  | lit n => width.Holds n
  | add a b => a.Within width ∧ b.Within width ∧ width.Holds (a.value + b.value)
  | sub a b => a.Within width ∧ b.Within width ∧ width.Holds (a.value - b.value)
  | mul a b => a.Within width ∧ b.Within width ∧ width.Holds (a.value * b.value)
  | div a n => a.Within width ∧ n ≠ 0 ∧ width.Holds (a.value.tdiv n)

def check (width : Width) (n : Int) : Option Int := if width.Holds n then some n else none

def eval (width : Width) : Exp → Option Int
  | lit n => check width n
  | add a b => (a.eval width).bind fun x => (b.eval width).bind fun y => check width (x + y)
  | sub a b => (a.eval width).bind fun x => (b.eval width).bind fun y => check width (x - y)
  | mul a b => (a.eval width).bind fun x => (b.eval width).bind fun y => check width (x * y)
  | div a n => (a.eval width).bind fun x => if n = 0 then none else check width (x.tdiv n)

theorem check_eq_some {width : Width} {n v : Int} :
    check width n = some v ↔ width.Holds n ∧ n = v := by
  rw [check]
  by_cases holds : width.Holds n
  · simp [holds]
  · simp [holds]

/-- The result is the exact value, and there is one when no part overflows. -/
theorem eval_eq_some {width : Width} {e : Exp} {v : Int} :
    e.eval width = some v ↔ e.Within width ∧ e.value = v := by
  have binary : ∀ (a b : Exp) (op : Int → Int → Int) (v : Int),
      (∀ v, a.eval width = some v ↔ a.Within width ∧ a.value = v) →
      (∀ v, b.eval width = some v ↔ b.Within width ∧ b.value = v) →
      (((a.eval width).bind fun x => (b.eval width).bind fun y => check width (op x y)) = some v ↔
        (a.Within width ∧ b.Within width ∧ width.Holds (op a.value b.value)) ∧
          op a.value b.value = v) := by
    intro a b op v iha ihb
    simp only [Option.bind_eq_some_iff, iha, ihb, check_eq_some]
    constructor
    · rintro ⟨x, ⟨ha, rfl⟩, y, ⟨hb, rfl⟩, holds, rfl⟩
      exact ⟨⟨ha, hb, holds⟩, rfl⟩
    · rintro ⟨⟨ha, hb, holds⟩, rfl⟩
      exact ⟨a.value, ⟨ha, rfl⟩, b.value, ⟨hb, rfl⟩, holds, rfl⟩
  induction e generalizing v with
  | lit n => exact check_eq_some
  | add a b iha ihb => exact binary a b (· + ·) v (fun _ => iha) (fun _ => ihb)
  | sub a b iha ihb => exact binary a b (· - ·) v (fun _ => iha) (fun _ => ihb)
  | mul a b iha ihb => exact binary a b (· * ·) v (fun _ => iha) (fun _ => ihb)
  | div a n ih =>
    simp only [eval, Option.bind_eq_some_iff, ih]
    constructor
    · rintro ⟨x, ⟨ha, rfl⟩, checked⟩
      split at checked
      · cases checked
      · rename_i nonzero
        obtain ⟨holds, rfl⟩ := check_eq_some.mp checked
        exact ⟨⟨ha, nonzero, holds⟩, rfl⟩
    · rintro ⟨⟨ha, nonzero, holds⟩, rfl⟩
      refine ⟨a.value, ⟨ha, rfl⟩, ?_⟩
      rw [if_neg nonzero]
      exact check_eq_some.mpr ⟨holds, rfl⟩

end Exp

end CheckedInt
