import Mathlib.Data.List.Sort

/-!
# Sorting and searching with a comparator

A comparator returns a negative number, zero or a positive number. Sorting leaves the order of
equal items open, and searching a sorted list leaves open which of the equal items is found.
-/

namespace SortSearch

variable {α : Type}

/-- A comparator that is consistent. -/
structure Comparator (α : Type) where
  compare : α → α → Int
  swap : ∀ a b, compare a b < 0 ↔ 0 < compare b a
  trans : ∀ {a b c}, compare a b ≤ 0 → compare b c ≤ 0 → compare a c ≤ 0

namespace Comparator

theorem le_swap (comparator : Comparator α) (a b : α) :
    comparator.compare a b ≤ 0 ↔ 0 ≤ comparator.compare b a := by
  have greater := comparator.swap b a
  omega

theorem eq_swap (comparator : Comparator α) (a b : α) :
    comparator.compare a b = 0 ↔ comparator.compare b a = 0 := by
  have less := comparator.swap a b
  have greater := comparator.swap b a
  omega

theorem compare_self (comparator : Comparator α) (a : α) : comparator.compare a a = 0 := by
  have self := comparator.swap a a
  omega

/-- The comparator with its arguments switched. -/
def desc (comparator : Comparator α) : Comparator α where
  compare a b := comparator.compare b a
  swap a b := comparator.swap b a
  trans first second := comparator.trans second first

def Sorted (comparator : Comparator α) (items : List α) : Prop :=
  items.Pairwise fun a b => comparator.compare a b ≤ 0

theorem Sorted.sublist {comparator : Comparator α} {items items' : List α}
    (sorted : comparator.Sorted items) (sub : List.Sublist items' items) :
    comparator.Sorted items' :=
  List.Pairwise.sublist sub sorted

theorem Sorted.le {comparator : Comparator α} {items : List α} {i j : Nat} {a b : α}
    (sorted : comparator.Sorted items) (order : i ≤ j) (first : items[i]? = some a)
    (second : items[j]? = some b) : comparator.compare a b ≤ 0 := by
  rcases Nat.eq_or_lt_of_le order with rfl | less
  · rw [first] at second
    cases second
    exact (comparator.compare_self a).le
  · obtain ⟨inside, rfl⟩ := List.getElem?_eq_some_iff.mp first
    obtain ⟨inside', rfl⟩ := List.getElem?_eq_some_iff.mp second
    exact List.pairwise_iff_getElem.mp sorted i j inside inside' less

theorem sorted_nil (comparator : Comparator α) : comparator.Sorted [] :=
  List.Pairwise.nil

end Comparator

def Finds (comparator : Comparator α) (key : α) (items : List α) : Option Nat → Prop
  | some idx => ∃ item, items[idx]? = some item ∧ comparator.compare key item = 0
  | none => ∀ item ∈ items, comparator.compare key item ≠ 0

theorem finds_desc {comparator : Comparator α} {key : α} {items : List α} {found : Option Nat}
    (finds : Finds comparator.desc key items found) : Finds comparator key items found := by
  cases found with
  | none => exact fun item mem zero => finds item mem ((comparator.eq_swap key item).mp zero)
  | some idx =>
    obtain ⟨item, place, zero⟩ := finds
    exact ⟨item, place, (comparator.eq_swap key item).mpr zero⟩

structure StandardLibrary (α : Type) where
  qsort : (α → α → Int) → List α → List α
  bsearch : (α → α → Int) → α → List α → Option Nat
  qsort_perm : ∀ (comparator : Comparator α) items,
    List.Perm (qsort comparator.compare items) items
  qsort_sorted : ∀ (comparator : Comparator α) items,
    comparator.Sorted (qsort comparator.compare items)
  bsearch_finds : ∀ (comparator : Comparator α) key items, comparator.Sorted items →
    Finds comparator key items (bsearch comparator.compare key items)

section Linear

/-- The first item that compares equal. -/
def linearSearch (compare : α → α → Int) (key : α) (items : List α) : Option Nat :=
  items.findIdx? fun item => compare key item = 0

theorem linearSearch_finds (comparator : Comparator α) (key : α) (items : List α) :
    Finds comparator key items (linearSearch comparator.compare key items) := by
  cases found : linearSearch comparator.compare key items with
  | none =>
    intro item mem
    have fails := List.findIdx?_eq_none_iff.mp found item mem
    exact of_decide_eq_false fails
  | some idx =>
    obtain ⟨inside, zero, -⟩ := List.findIdx?_eq_some_iff_getElem.mp found
    exact ⟨items[idx], List.getElem?_eq_getElem inside, of_decide_eq_true zero⟩

end Linear

section Binary

/-- Halve the window until an item compares equal. -/
def binarySearch (compare : α → α → Int) (key : α) (items : List α) (lower upper : Nat) :
    Option Nat :=
  if lower < upper then
    match items[(lower + upper) / 2]? with
    | none => none
    | some item =>
      if compare key item < 0 then binarySearch compare key items lower ((lower + upper) / 2)
      else if 0 < compare key item then
        binarySearch compare key items ((lower + upper) / 2 + 1) upper
      else some ((lower + upper) / 2)
  else none
termination_by upper - lower

theorem binarySearch_sound {compare : α → α → Int} {key : α} {items : List α}
    {lower upper idx : Nat} (found : binarySearch compare key items lower upper = some idx) :
    ∃ item, items[idx]? = some item ∧ compare key item = 0 := by
  fun_induction binarySearch compare key items lower upper with
  | case1 => cases found
  | case2 lower upper window item place less ih => exact ih found
  | case3 lower upper window item place notLess greater ih => exact ih found
  | case4 lower upper window item place notLess notGreater =>
    cases found
    exact ⟨item, place, by omega⟩
  | case5 => cases found

theorem binarySearch_complete {comparator : Comparator α} {key found : α} {items : List α}
    (sorted : comparator.Sorted items) {lower upper idx : Nat} (above : lower ≤ idx)
    (below : idx < upper) (inside : upper ≤ items.length) (place : items[idx]? = some found)
    (equal : comparator.compare key found = 0) :
    (binarySearch comparator.compare key items lower upper).isSome := by
  fun_induction binarySearch comparator.compare key items lower upper with
  | case1 lower upper window outside =>
    have outside := List.getElem?_eq_none_iff.mp outside
    omega
  | case2 lower upper window item middle less ih =>
    refine ih above ?_ (by omega)
    -- What is behind the middle is above the key.
    by_contra behind
    have order := sorted.le (Nat.le_of_not_lt behind) middle place
    have above := (comparator.le_swap found key).mpr (by omega)
    have back := comparator.trans order above
    have greater := (comparator.swap key item).mp less
    omega
  | case3 lower upper window item middle notLess greater ih =>
    refine ih ?_ below inside
    by_contra before
    have order := sorted.le (by omega) place middle
    have back := comparator.trans equal.le order
    omega
  | case4 => rfl
  | case5 lower upper window => omega

theorem binarySearch_finds (comparator : Comparator α) (key : α) (items : List α)
    (sorted : comparator.Sorted items) :
    Finds comparator key items (binarySearch comparator.compare key items 0 items.length) := by
  cases found : binarySearch comparator.compare key items 0 items.length with
  | some idx => exact binarySearch_sound found
  | none =>
    intro item mem zero
    obtain ⟨idx, inside, rfl⟩ := List.mem_iff_getElem.mp mem
    have some := binarySearch_complete sorted (Nat.zero_le idx) inside le_rfl
      (List.getElem?_eq_getElem inside) zero
    rw [found] at some
    cases some

end Binary

/-- A stable sort and the search by halves. -/
def mergeLibrary (α : Type) : StandardLibrary α where
  qsort compare items := items.mergeSort fun a b => compare a b ≤ 0
  bsearch compare key items := binarySearch compare key items 0 items.length
  qsort_perm _ items := List.mergeSort_perm items _
  qsort_sorted comparator items := by
    have trans : ∀ a b c, decide (comparator.compare a b ≤ 0) = true →
        decide (comparator.compare b c ≤ 0) = true → decide (comparator.compare a c ≤ 0) = true := by
      intro a b c first second
      exact decide_eq_true
        (comparator.trans (of_decide_eq_true first) (of_decide_eq_true second))
    have total : ∀ a b,
        (decide (comparator.compare a b ≤ 0) || decide (comparator.compare b a ≤ 0)) = true := by
      intro a b
      have swap := comparator.le_swap a b
      rw [Bool.or_eq_true, decide_eq_true_iff, decide_eq_true_iff]
      omega
    exact (List.pairwise_mergeSort trans total items).imp fun le => of_decide_eq_true le
  bsearch_finds := binarySearch_finds

end SortSearch
