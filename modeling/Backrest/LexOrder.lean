import Mathlib.Data.List.Lex
import Mathlib.Data.List.Sort
import Mathlib.Order.Lattice

/-!
# Prefixes and sorting of words in lexicographic order

Truncation is monotone in the lexicographic order, so an interval of words is
contained in the interval of their truncations. Sorting by a key is stated for
an arbitrary linear order of keys; when the keys are strictly increasing the
sort changes nothing, and one new greatest key goes to the end. An ending put on
all words changes their order only between a word and its fronts.
-/

namespace LexOrder

universe u v

section Take
variable {α : Type u} [LinearOrder α]

theorem nil_le (s : List α) : [] ≤ s := by
  cases s with
  | nil => exact le_rfl
  | cons b t => exact le_of_lt (List.Lex.nil)

theorem cons_le_cons_iff {a b : α} {s t : List α} :
    a :: s ≤ b :: t ↔ a < b ∨ a = b ∧ s ≤ t := by
  rw [← not_lt, ← not_lt (a := t), List.cons_lt_cons_iff, not_or, not_lt, not_and]
  constructor
  · rintro ⟨hle, htail⟩
    rcases lt_or_eq_of_le hle with hlt | heq
    · exact Or.inl hlt
    · exact Or.inr ⟨heq, htail heq.symm⟩
  · rintro (hlt | ⟨rfl, htail⟩)
    · exact ⟨hlt.le, fun heq => absurd heq hlt.ne'⟩
    · exact ⟨le_rfl, fun _ => htail⟩

theorem take_le_take {s t : List α} (h : s ≤ t) (n : Nat) : s.take n ≤ t.take n := by
  induction n generalizing s t with
  | zero => exact le_rfl
  | succ n ih =>
    cases s with
    | nil => exact nil_le _
    | cons a s =>
      cases t with
      | nil => exact absurd (nil_le (a :: s)) (fun h' => List.cons_ne_nil a s (le_antisymm h h'))
      | cons b t =>
        rw [List.take_succ_cons, List.take_succ_cons, cons_le_cons_iff]
        rcases cons_le_cons_iff.mp h with hlt | ⟨heq, hle⟩
        · exact Or.inl hlt
        · exact Or.inr ⟨heq, ih hle⟩

end Take

section Ext
variable {α : Type u} [LinearOrder α]

theorem append_lt_append_left_iff {p a b : List α} : p ++ a < p ++ b ↔ a < b := by
  induction p with
  | nil => exact Iff.rfl
  | cons c p ih =>
    rw [List.cons_append, List.cons_append, List.cons_lt_cons_iff, ih]
    simp

theorem front_le {a b : List α} (isPrefix : a <+: b) : a ≤ b := by
  obtain ⟨rest, rfl⟩ := isPrefix
  have before : a ++ [] ≤ a ++ rest := by
    rw [← not_lt, append_lt_append_left_iff]
    exact not_lt_of_ge (nil_le rest)
  rwa [List.append_nil] at before

/-- With fronts of one length the fronts are compared first. -/
theorem append_lt_append_iff {a b x y : List α} (same : a.length = b.length) :
    a ++ x < b ++ y ↔ a < b ∨ a = b ∧ x < y := by
  induction a generalizing b with
  | nil =>
    obtain rfl := List.length_eq_zero_iff.mp same.symm
    simp
  | cons c a ih =>
    cases b with
    | nil => simp at same
    | cons d b =>
      rw [List.length_cons, List.length_cons, Nat.add_right_cancel_iff] at same
      rw [List.cons_append, List.cons_append, List.cons_lt_cons_iff, List.cons_lt_cons_iff, ih same,
        List.cons.injEq]
      tauto

/-- A word between two words with one front has that front. -/
theorem prefix_of_between {p a b w : List α} (low : p ++ a ≤ w) (high : w ≤ p ++ b) : p <+: w := by
  induction p generalizing w with
  | nil => exact List.nil_prefix
  | cons c p ih =>
    cases w with
    | nil => exact absurd (le_antisymm low (nil_le _)) (by simp)
    | cons d w =>
      rw [List.cons_append, cons_le_cons_iff] at low high
      have same : c = d := by
        rcases low with lt | ⟨same, -⟩
        · rcases high with gt | ⟨same, -⟩
          · exact absurd lt (not_lt_of_gt gt)
          · exact same.symm
        · exact same
      subst same
      have low' : p ++ a ≤ w := by
        rcases low with lt | ⟨-, le⟩
        · exact absurd lt (lt_irrefl c)
        · exact le
      have high' : w ≤ p ++ b := by
        rcases high with lt | ⟨-, le⟩
        · exact absurd lt (lt_irrefl c)
        · exact le
      exact List.cons_prefix_cons.mpr ⟨rfl, ih low' high'⟩

/-- Only a front of a word comes before it but after it with an ending on both. -/
theorem prefix_of_append_lt {n x e : List α} (h : n < x) (swapped : x ++ e < n ++ e) : n <+: x := by
  induction n generalizing x with
  | nil => exact List.nil_prefix
  | cons c n ih =>
    cases x with
    | nil => exact absurd h (not_lt_of_ge (nil_le _))
    | cons d x =>
      rw [List.cons_lt_cons_iff] at h
      rw [List.cons_append, List.cons_append, List.cons_lt_cons_iff] at swapped
      rcases h with lt | ⟨rfl, less⟩
      · rcases swapped with gt | ⟨same, -⟩
        · exact absurd lt (not_lt_of_gt gt)
        · exact absurd lt (same ▸ lt_irrefl _)
      · rcases swapped with gt | ⟨-, less'⟩
        · exact absurd gt (lt_irrefl c)
        · exact List.cons_prefix_cons.mpr ⟨rfl, ih less less'⟩

/-- Words in the order that an ending gives them: a greater word before a smaller one starts with
it, and so does every word between the two. The ending starts with its smallest character. -/
theorem lt_of_ext_order {c : α} {rest : List α} (first : ∀ d ∈ rest, c < d) {x y n : List α}
    (xy : x ++ c :: rest < y ++ c :: rest) (yn : y ++ c :: rest < n ++ c :: rest) (h : n < x) :
    n < y := by
  by_contra notLess
  have apart : y ≠ n := by
    rintro rfl
    exact lt_irrefl _ yn
  have less : y < n := lt_of_le_of_ne (le_of_not_gt notLess) apart
  obtain ⟨s, rfl⟩ := prefix_of_append_lt (less.trans h) xy
  have low : y ++ [] ≤ n := by
    rw [List.append_nil]
    exact less.le
  obtain ⟨r, rfl⟩ := prefix_of_between low h.le
  rw [append_lt_append_left_iff] at h
  rw [List.append_assoc, append_lt_append_left_iff] at xy yn
  obtain ⟨t, rfl⟩ := prefix_of_append_lt h (xy.trans yn)
  rw [List.append_assoc] at xy
  obtain ⟨e, he⟩ := prefix_of_between xy.le yn.le
  cases r with
  | nil => exact apart (by simp)
  | cons d r =>
    obtain ⟨rfl, tail⟩ := List.cons.inj he
    rw [← he, append_lt_append_left_iff] at xy
    cases e with
    | nil => exact absurd xy (not_lt_of_ge (nil_le _))
    | cons b e =>
      -- The rest of the ending starts with a greater character, so it is not before the ending.
      have greater : d < b := first b (tail ▸ by simp)
      have before : (d :: r) ++ b :: e < (d :: r) ++ (d :: rest) := by
        rw [he]
        exact yn
      rw [append_lt_append_left_iff, List.cons_lt_cons_iff] at before
      rcases before with lt | ⟨same, -⟩
      · exact absurd lt (not_lt_of_gt greater)
      · exact absurd greater (same ▸ lt_irrefl _)
end Ext

section SortBy
variable {α : Type u} {κ : Type v} [LinearOrder κ]

def sortBy (key : α → κ) (items : List α) : List α :=
  items.insertionSort (fun a b => key a ≤ key b)

theorem mem_sortBy {key : α → κ} {items : List α} {a : α} :
    a ∈ sortBy key items ↔ a ∈ items :=
  (List.perm_insertionSort _ items).mem_iff

theorem sortBy_perm (key : α → κ) (items : List α) : (sortBy key items).Perm items :=
  List.perm_insertionSort _ items

theorem sortBy_pairwise (key : α → κ) (items : List α) :
    (sortBy key items).Pairwise (fun a b => key a ≤ key b) := by
  have total : Std.Total (fun a b : α => key a ≤ key b) := ⟨fun a b => le_total _ _⟩
  have trans : IsTrans α (fun a b : α => key a ≤ key b) := ⟨fun _ _ _ => le_trans⟩
  exact List.pairwise_insertionSort _ items

/-- A list that is already ascending is left alone. -/
theorem sortBy_eq_self {key : α → κ} {items : List α}
    (sorted : items.Pairwise (fun a b => key a ≤ key b)) : sortBy key items = items :=
  List.Pairwise.insertionSort_eq sorted

end SortBy

end LexOrder
