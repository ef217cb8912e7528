import Mathlib.Order.Basic
import Mathlib.Data.List.Basic
import Mathlib.Order.Lattice

/-!
# The newest items of a list

How new an item is, is the number of items after it in the order. The newest
`n` items are those with fewer than `n` items after them. A sorted list has them
at its start or at its end.
-/

namespace Newest

universe u
variable {α : Type u} [LinearOrder α]

/-- The number of items after `a`. -/
def newer (l : List α) (a : α) : Nat := l.countP (fun b => decide (a < b))

theorem newer_perm {l l' : List α} (perm : l.Perm l') (a : α) : newer l a = newer l' a :=
  perm.countP_eq _

theorem newer_antitone (l : List α) {a b : α} (le : a ≤ b) : newer l b ≤ newer l a := by
  refine List.countP_mono_left (fun c _ later => ?_)
  rw [decide_eq_true_eq] at later ⊢
  exact lt_of_le_of_lt le later

theorem newer_cons (x : α) (l : List α) (a : α) :
    newer (x :: l) a = newer l a + if a < x then 1 else 0 := by
  rw [newer, List.countP_cons]
  simp [newer]

/-- Nothing is newer than an upper bound. -/
theorem newer_eq_zero {l : List α} {a : α} (below : ∀ b ∈ l, b ≤ a) : newer l a = 0 := by
  rw [newer, List.countP_eq_zero]
  intro b hb
  simpa using below b hb

/-- The first `n` items of a list sorted from the newest on. -/
theorem mem_take_iff {l : List α} (desc : l.Pairwise (fun a b => b < a)) {n : Nat} {a : α} :
    a ∈ l.take n ↔ a ∈ l ∧ newer l a < n := by
  induction l generalizing n with
  | nil => simp
  | cons x rest ih =>
    obtain ⟨below, tail⟩ := List.pairwise_cons.mp desc
    cases n with
    | zero => simp
    | succ n =>
      rw [List.take_succ_cons, List.mem_cons, List.mem_cons, ih tail, newer_cons]
      constructor
      · rintro (rfl | ⟨mem, few⟩)
        · refine ⟨Or.inl rfl, ?_⟩
          rw [newer_eq_zero (fun b hb => (below b hb).le), if_neg (lt_irrefl _)]
          omega
        · refine ⟨Or.inr mem, ?_⟩
          split <;> omega
      · rintro ⟨rfl | mem, few⟩
        · exact Or.inl rfl
        · rw [if_pos (below a mem)] at few
          exact Or.inr ⟨mem, by omega⟩

/-- The last `n` items of a list sorted from the oldest on. -/
theorem mem_drop_iff {l : List α} (asc : l.Pairwise (fun a b => a < b)) {n : Nat} {a : α} :
    a ∈ l.drop (l.length - n) ↔ a ∈ l ∧ newer l a < n := by
  have first : l.reverse.take n = (l.drop (l.length - n)).reverse := List.take_reverse
  rw [← List.mem_reverse, ← first, mem_take_iff (List.pairwise_reverse.mpr asc),
    List.mem_reverse, newer_perm (List.reverse_perm l)]

/-- What stands before the last `n` items. -/
theorem mem_take_length_sub_iff {l : List α} (asc : l.Pairwise (fun a b => a < b)) {n : Nat} {a : α} :
    a ∈ l.take (l.length - n) ↔ a ∈ l ∧ n ≤ newer l a := by
  have parts : l.take (l.length - n) ++ l.drop (l.length - n) = l :=
    List.take_append_drop (l.length - n) l
  have unique : (l.take (l.length - n) ++ l.drop (l.length - n)).Nodup := by
    rw [parts]
    exact asc.imp (fun h => h.ne)
  obtain ⟨-, -, apart⟩ := List.nodup_append.mp unique
  constructor
  · intro older
    refine ⟨List.mem_of_mem_take older, ?_⟩
    by_contra few
    have newest := (mem_drop_iff asc).mpr ⟨List.mem_of_mem_take older, Nat.not_le.mp few⟩
    exact apart a older a newest rfl
  · rintro ⟨mem, many⟩
    rw [← parts, List.mem_append] at mem
    rcases mem with older | newest
    · exact older
    · exact absurd ((mem_drop_iff asc).mp newest).2 (Nat.not_lt.mpr many)

end Newest
