import Backrest.AntiMerge

/-!
# The difference of ascending lists with repeats

On ascending lists the merge of `AntiMerge` takes one item away for each equal
one of the second list, whatever the repeats.
-/

namespace SortedDiff

open AntiMerge

universe u

variable {α : Type u} [LinearOrder α] [BEq α] [LawfulBEq α] {item x : α} {items anti : List α}

theorem search_sorted (sorted : anti.Pairwise (· ≤ ·)) :
    ((search item anti).1 = true ↔ item ∉ anti) ∧
      ∀ x, item ≤ x → (search item anti).2.count x + (if x = item ∧ item ∈ anti then 1 else 0) =
        anti.count x := by
  induction anti with
  | nil => simp [search]
  | cons b anti ih =>
    obtain ⟨least, sorted⟩ := List.pairwise_cons.mp sorted
    rw [search]
    rcases lt_trichotomy item b with lt | rfl | gt
    · have absent : item ∉ b :: anti := by
        rw [List.mem_cons, not_or]
        exact ⟨ne_of_lt lt, fun mem => absurd (least item mem) (not_le_of_gt lt)⟩
      rw [if_pos lt]
      simp [absent]
    · rw [if_neg (lt_irrefl item), if_pos rfl]
      refine ⟨by simp, fun x _ => ?_⟩
      by_cases same : x = item
      · simp [same]
      · rw [if_neg (fun both => same both.1), List.count_cons_of_ne (Ne.symm same)]
        rfl
    · rw [if_neg (not_lt_of_gt gt), if_neg gt.ne']
      have mem : item ∈ b :: anti ↔ item ∈ anti := by
        rw [List.mem_cons, or_iff_right gt.ne']
      simp only [mem]
      refine ⟨(ih sorted).1, fun x le => ?_⟩
      rw [(ih sorted).2 x le, List.count_cons_of_ne (ne_of_lt (lt_of_lt_of_le gt le))]

omit [BEq α] [LawfulBEq α] in
theorem search_pairwise (sorted : anti.Pairwise (· ≤ ·)) :
    (search item anti).2.Pairwise (· ≤ ·) :=
  sorted.sublist (search_suffix item anti).sublist

theorem mergeAnti_count (sorted : items.Pairwise (· ≤ ·)) (sortedAnti : anti.Pairwise (· ≤ ·))
    (x : α) : (mergeAnti items anti).count x = items.count x - anti.count x := by
  induction items generalizing anti with
  | nil => simp [mergeAnti]
  | cons item rest ih =>
    obtain ⟨least, sorted⟩ := List.pairwise_cons.mp sorted
    obtain ⟨found, left⟩ := @search_sorted α _ _ _ item anti sortedAnti
    have tail := ih sorted (@search_pairwise α _ item anti sortedAnti)
    by_cases before : x < item
    · have absent : x ∉ item :: rest := by
        rw [List.mem_cons, not_or]
        exact ⟨ne_of_lt before, fun mem => absurd (least x mem) (not_le_of_gt before)⟩
      rw [List.count_eq_zero.mpr absent, Nat.zero_sub, List.count_eq_zero]
      exact fun mem => absent ((mergeAnti_sublist _ _).subset mem)
    · have count := left x (not_lt.mp before)
      rw [mergeAnti]
      by_cases mem : item ∈ anti
      · have removed : (search item anti).1 = false := by
          rw [Bool.eq_false_iff]
          exact fun kept => found.mp kept mem
        dsimp only
        rw [removed, if_neg Bool.false_ne_true, tail]
        by_cases same : x = item
        · rw [if_pos ⟨same, mem⟩] at count
          rw [same] at count ⊢
          rw [List.count_cons_self]
          omega
        · rw [if_neg fun both => same both.1] at count
          rw [List.count_cons_of_ne (Ne.symm same)]
          omega
      · dsimp only
        rw [if_neg fun both => mem both.2] at count
        rw [if_pos (found.mpr mem), List.count_cons, List.count_cons, tail]
        split
        next same =>
          have none : anti.count item = 0 := List.count_eq_zero.mpr mem
          rw [beq_iff_eq] at same
          rw [same] at none
          omega
        next => omega

omit [BEq α] [LawfulBEq α] in
theorem mergeAnti_pairwise (sorted : items.Pairwise (· ≤ ·)) :
    (mergeAnti items anti).Pairwise (· ≤ ·) :=
  sorted.sublist (mergeAnti_sublist items anti)

end SortedDiff
