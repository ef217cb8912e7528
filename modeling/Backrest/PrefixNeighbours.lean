import Backrest.LexOrder

/-!
# Prefixes among neighbours

In a strictly ascending list of words only the nearest words can be prefixes or
extensions of a word: the one before it, if no word before it is a prefix of
another, and the one after it.
-/

namespace PrefixNeighbours

open LexOrder

universe u v

variable {α : Type u} {β : Type v} [LinearOrder β]

/-- Some entry that counts has a word related to `w`, and then the first one that counts has. -/
theorem find_iff {counts : α → Bool} {related : α → Prop} {as : List α}
    (first : ∀ front a b rest, as = front ++ a :: rest → counts a = true →
      b ∈ rest → counts b = true → related b → related a) :
    (∃ a ∈ as, counts a = true ∧ related a) ↔ ∃ a, as.find? counts = some a ∧ related a := by
  constructor
  · rintro ⟨b, hb, hc, hr⟩
    obtain ⟨a, found⟩ := Option.isSome_iff_exists.mp (List.find?_isSome.mpr ⟨b, hb, hc⟩)
    obtain ⟨ha, front, rest, rfl, before⟩ := List.find?_eq_some_iff_append.mp found
    refine ⟨a, found, ?_⟩
    rcases List.mem_append.mp hb with hb | hb
    · have skipped := before b hb
      rw [hc] at skipped
      exact absurd skipped (by decide)
    · rcases List.mem_cons.mp hb with rfl | hb
      · exact hr
      · exact first front a b rest rfl ha hb hc hr
  · rintro ⟨a, found, hr⟩
    exact ⟨a, List.mem_of_find?_eq_some found, List.find?_some found, hr⟩

variable {word : α → List β} {counts : α → Bool} {w : List β}

/-- A word between a prefix of `w` and `w` has that prefix. -/
theorem prefix_between {p m : List β} (hp : p <+: w) (low : p ≤ m) (high : m ≤ w) : p <+: m := by
  obtain ⟨rest, rfl⟩ := hp
  rw [← List.append_nil p] at low
  exact prefix_of_between low high

/-- Of the words before `w`, only the last that counts can be a prefix of `w`. -/
theorem prior_iff {before : List α} (sorted : before.Pairwise (fun a b => word a < word b))
    (below : ∀ a ∈ before, word a < w)
    (apart : ∀ a ∈ before, ∀ b ∈ before, counts a = true → counts b = true → word a <+: word b →
      word a = word b) :
    (∃ a ∈ before, counts a = true ∧ word a <+: w) ↔
      ∃ a, before.reverse.find? counts = some a ∧ word a <+: w := by
  have back : before.reverse.Pairwise (fun a b => word b < word a) := List.pairwise_reverse.mpr sorted
  have members : (∃ a ∈ before, counts a = true ∧ word a <+: w) ↔
      ∃ a ∈ before.reverse, counts a = true ∧ word a <+: w := by
    simp only [List.mem_reverse]
  rw [members]
  apply find_iff
  intro front a b rest split ha hb hc hr
  have member_a : a ∈ before := List.mem_reverse.mp (split ▸ by simp)
  have member_b : b ∈ before := List.mem_reverse.mp (split ▸ by simp [hb])
  have less : word b < word a := by
    rw [split] at back
    exact (List.pairwise_cons.mp (List.pairwise_append.mp back).2.1).1 b hb
  have inner : word b <+: word a := prefix_between hr less.le (below a member_a).le
  exact absurd (apart b member_b a member_a hc ha inner) (ne_of_lt less)

/-- Of the words after `w`, only the first that counts can be an extension of `w`. -/
theorem next_iff {later : List α} (sorted : later.Pairwise (fun a b => word a < word b))
    (above : ∀ a ∈ later, w < word a) :
    (∃ a ∈ later, counts a = true ∧ w <+: word a) ↔
      ∃ a, later.find? counts = some a ∧ w <+: word a := by
  apply find_iff
  intro front a b rest split _ hb _ hr
  have less : word a < word b := by
    rw [split] at sorted
    exact (List.pairwise_cons.mp (List.pairwise_append.mp sorted).2.1).1 b hb
  exact prefix_between hr (above a (split ▸ by simp)).le less.le

theorem not_prefix_of_lt {a b : List β} (less : a < b) : ¬ b <+: a := by
  rintro ⟨rest, rfl⟩
  have le : b ≤ b ++ rest := by
    by_contra greater
    have less' : b ++ rest < b ++ [] := by simpa using not_le.mp greater
    exact absurd (append_lt_append_left_iff.mp less') (not_lt_of_ge (nil_le rest))
  exact absurd less (not_lt_of_ge le)

end PrefixNeighbours
