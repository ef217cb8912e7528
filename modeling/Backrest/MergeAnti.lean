import Backrest.SortedDiff
import Backrest.Text

/-!
# The difference of sorted string lists

What `strLstMergeAnti` returns when both lists are sorted ascending. Each string of the second
list takes one equal string away, so repeats are left over where there are more of them in the
first list.
-/

namespace MergeAnti

open Text SortedDiff

variable {this anti : List Str}

/-- The strings that are not in the second list, in order, with their repeats. -/
def missing (this anti : List Str) : List Str := this.filter fun item => decide (item ∉ anti)

theorem count_missing (item : Str) :
    (missing this anti).count item = if item ∈ anti then 0 else this.count item := by
  split
  next present =>
    apply List.count_eq_zero.mpr
    intro mem
    exact of_decide_eq_true (List.mem_filter.mp mem).2 present
  next absent => exact List.count_filter (decide_eq_true absent)

theorem count_strLstMergeAnti (sorted : this.Pairwise (· ≤ ·)) (sortedAnti : anti.Pairwise (· ≤ ·))
    (item : Str) : (strLstMergeAnti this anti).count item = this.count item - anti.count item :=
  mergeAnti_count sorted sortedAnti item

/-- The lists agree as soon as they hold each string as often. -/
theorem strLstMergeAnti_eq_missing (sorted : this.Pairwise (· ≤ ·))
    (counts : ∀ item, (strLstMergeAnti this anti).count item = (missing this anti).count item) :
    strLstMergeAnti this anti = missing this anti := by
  have perm : (strLstMergeAnti this anti).Perm (missing this anti) := List.perm_iff_count.mpr counts
  exact perm.eq_of_pairwise (fun _ _ _ _ => le_antisymm) (mergeAnti_pairwise sorted)
    (sorted.filter _)

/-- The difference is exact when no common string is more often in the first list. -/
theorem strLstMergeAnti_eq_iff (sorted : this.Pairwise (· ≤ ·))
    (sortedAnti : anti.Pairwise (· ≤ ·)) :
    strLstMergeAnti this anti = this.filter (fun item => decide (item ∉ anti)) ↔
      ∀ item ∈ anti, this.count item ≤ anti.count item := by
  constructor
  · intro same item present
    have count := count_strLstMergeAnti sorted sortedAnti item
    rw [same, ← missing, count_missing, if_pos present] at count
    omega
  · intro enough
    apply strLstMergeAnti_eq_missing sorted
    intro item
    rw [count_strLstMergeAnti sorted sortedAnti, count_missing]
    split
    next present =>
      have few := enough item present
      omega
    next absent =>
      rw [List.count_eq_zero.mpr absent]
      rfl

theorem strLstMergeAnti_eq_iff_twice :
    strLstMergeAnti ["a".toList, "a".toList, "b".toList] ["a".toList, "a".toList] =
        ["a".toList, "a".toList, "b".toList].filter
          (fun item => decide (item ∉ ["a".toList, "a".toList])) ↔
      ∀ item ∈ ["a".toList, "a".toList],
        ["a".toList, "a".toList, "b".toList].count item ≤ ["a".toList, "a".toList].count item :=
  strLstMergeAnti_eq_iff (by decide) (by decide)

/-- One of two equal strings is left over. -/
theorem strLstMergeAnti_not_eq :
    ¬ ∀ this anti : List Str, this.Pairwise (· ≤ ·) → anti.Pairwise (· ≤ ·) →
      strLstMergeAnti this anti = this.filter (fun item => decide (item ∉ anti)) := by
  intro all
  have same := all ["a".toList, "a".toList] ["a".toList] (by decide) (by decide)
  revert same
  decide

end MergeAnti
