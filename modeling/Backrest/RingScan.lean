import Mathlib.Data.Nat.ModEq
import Mathlib.Data.Fintype.EquivFin
import Mathlib.Data.Fintype.Card

/-!
# Walking around a ring

The places of a ring of `size` are visited from a start with a fixed stride. When
the stride is coprime to the size the walk is back at its start after `size`
steps and not before, and has then been at every place.
-/

namespace RingScan

variable {size start stride : Nat}

/-- The place after `k` steps. -/
def place (size start stride k : Nat) : Nat := (start + stride * k) % size

theorem place_zero (h : start < size) : place size start stride 0 = start := by
  rw [place, Nat.mul_zero, Nat.add_zero, Nat.mod_eq_of_lt h]

theorem place_lt (h : 0 < size) (k : Nat) : place size start stride k < size := Nat.mod_lt _ h

theorem place_succ (k : Nat) :
    (place size start stride k + stride) % size = place size start stride (k + 1) := by
  rw [place, place, Nat.mod_add_mod, Nat.mul_succ, Nat.add_assoc]

theorem place_inj (coprime : Nat.Coprime size stride) {j k : Nat} (hj : j < size) (hk : k < size)
    (same : place size start stride j = place size start stride k) : j = k := by
  have scaled : stride * j ≡ stride * k [MOD size] := Nat.ModEq.add_left_cancel' start same
  have plain : j ≡ k [MOD size] := Nat.ModEq.cancel_left_of_coprime coprime scaled
  rwa [Nat.ModEq, Nat.mod_eq_of_lt hj, Nat.mod_eq_of_lt hk] at plain

/-- The walk is back at its start after `size` steps. -/
theorem place_size (h : start < size) : place size start stride size = start := by
  rw [place, Nat.add_mul_mod_self_right, Nat.mod_eq_of_lt h]

theorem place_ne_start (coprime : Nat.Coprime size stride) (h : start < size) {k : Nat}
    (pos : 0 < k) (lt : k < size) : place size start stride k ≠ start := by
  intro back
  have zero := place_inj coprime lt (by omega : 0 < size) (back.trans (place_zero h).symm)
  omega

/-- Every place is visited. -/
theorem exists_place (coprime : Nat.Coprime size stride) {p : Nat} (h : p < size) :
    ∃ k < size, place size start stride k = p := by
  have pos : 0 < size := by omega
  let walk : Fin size → Fin size := fun k => ⟨place size start stride k, place_lt pos k⟩
  have injective : Function.Injective walk := by
    intro j k same
    exact Fin.ext (place_inj coprime j.2 k.2 (congrArg Fin.val same))
  obtain ⟨k, hit⟩ := Finite.surjective_of_injective injective ⟨p, h⟩
  exact ⟨k, k.2, congrArg Fin.val hit⟩

end RingScan
