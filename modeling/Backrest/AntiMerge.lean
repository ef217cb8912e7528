import Mathlib.Data.List.Lex
import Mathlib.Data.List.Nodup
import Backrest.LexOrder

/-!
# The difference of two lists by one merge

`mergeAnti` goes once through both lists and keeps the items of the first that
it does not meet in the second. On ascending lists that is their difference.
Here the lists are only nearly ascending: an item may come late, after greater
ones, if those stand right before it (`LateRuns`). Then the merge is still the
difference exactly when every common item is late after the same item in both
lists, or in neither.
-/

namespace AntiMerge

universe u

variable {α : Type u} [LinearOrder α]

/-- Search for one item: is it to be added, and where the next search starts. -/
def search (item : α) : List α → Bool × List α
  | [] => (true, [])
  | b :: anti =>
    if item < b then (true, b :: anti)
    else if item = b then (false, anti)
    else search item anti

/-- The items of the first list that the merge does not find in the second. -/
def mergeAnti : List α → List α → List α
  | [], _ => []
  | item :: rest, anti =>
    let (add, anti) := search item anti
    if add then item :: mergeAnti rest anti else mergeAnti rest anti

/-- Where the search starts after the given items. -/
def after (items anti : List α) : List α := items.foldl (fun anti item => (search item anti).2) anti

theorem search_suffix (item : α) (anti : List α) : (search item anti).2 <:+ anti := by
  induction anti with
  | nil => exact List.suffix_rfl
  | cons b anti ih =>
    rw [search]
    split
    · exact List.suffix_rfl
    · split
      · exact List.suffix_cons b anti
      · exact ih.trans (List.suffix_cons b anti)

variable {anti rest : List α} {item b : α}

theorem search_found_iff :
    search item anti = (false, rest) ↔
      ∃ front, anti = front ++ item :: rest ∧ ∀ b ∈ front, b < item := by
  induction anti with
  | nil => simp [search]
  | cons b anti ih =>
    rw [search]
    rcases lt_trichotomy item b with lt | rfl | gt
    · rw [if_pos lt]
      constructor
      · intro h
        cases h
      · rintro ⟨front, h, small⟩
        cases front with
        | nil =>
          cases h
          exact absurd lt (lt_irrefl item)
        | cons c front =>
          cases h
          exact absurd (small b List.mem_cons_self) (not_lt_of_gt lt)
    · rw [if_neg (lt_irrefl item), if_pos rfl]
      constructor
      · intro h
        cases h
        exact ⟨[], rfl, by simp⟩
      · rintro ⟨front, h, small⟩
        cases front with
        | nil =>
          cases h
          rfl
        | cons c front =>
          cases h
          exact absurd (small item List.mem_cons_self) (lt_irrefl item)
    · rw [if_neg (not_lt_of_gt gt), if_neg gt.ne', ih]
      constructor
      · rintro ⟨front, rfl, small⟩
        refine ⟨b :: front, rfl, ?_⟩
        intro c hc
        rcases List.mem_cons.mp hc with rfl | hc
        · exact gt
        · exact small c hc
      · rintro ⟨front, h, small⟩
        cases front with
        | nil =>
          cases h
          exact absurd gt (lt_irrefl item)
        | cons c front =>
          cases h
          exact ⟨front, rfl, fun c hc => small c (List.mem_cons_of_mem b hc)⟩

theorem search_stopped (h : search item anti = (true, b :: rest)) : item < b := by
  induction anti with
  | nil => cases h
  | cons c anti ih =>
    rw [search] at h
    split at h
    · cases h
      assumption
    · split at h
      · cases h
      · exact ih h

theorem search_passed (h : b ∈ anti) (gone : b ∉ (search item anti).2) : b ≤ item := by
  induction anti with
  | nil => cases h
  | cons c anti ih =>
    rw [search] at gone
    split at gone
    · exact absurd h gone
    · rename_i notLess
      have up : c ≤ item := le_of_not_gt notLess
      rcases List.mem_cons.mp h with rfl | tail
      · exact up
      · split at gone
        · exact absurd tail gone
        · exact ih tail gone

theorem after_append (front items anti : List α) :
    after (front ++ items) anti = after items (after front anti) :=
  List.foldl_append

theorem after_suffix (items anti : List α) : after items anti <:+ anti := by
  induction items generalizing anti with
  | nil => exact List.suffix_rfl
  | cons item items ih => exact (ih _).trans (search_suffix item anti)

theorem after_passed {items : List α} (h : b ∈ anti) (gone : b ∉ after items anti) :
    ∃ item ∈ items, b ≤ item := by
  induction items generalizing anti with
  | nil => exact absurd h gone
  | cons item items ih =>
    by_cases hb : b ∈ (search item anti).2
    · obtain ⟨x, hx, le⟩ := ih hb gone
      exact ⟨x, List.mem_cons_of_mem item hx, le⟩
    · exact ⟨item, List.mem_cons_self, search_passed h hb⟩

theorem mem_mergeAnti {items : List α} (nodup : items.Nodup) {n : α} :
    n ∈ mergeAnti items anti ↔
      ∃ front rest, items = front ++ n :: rest ∧ (search n (after front anti)).1 = true := by
  induction items generalizing anti with
  | nil => simp [mergeAnti]
  | cons item items ih =>
    obtain ⟨fresh, tail⟩ := List.nodup_cons.mp nodup
    have split : (∃ front rest, item :: items = front ++ n :: rest ∧
        (search n (after front anti)).1 = true) ↔
        (n = item ∧ (search item anti).1 = true) ∨
          n ∈ mergeAnti items (search item anti).2 := by
      rw [ih tail]
      constructor
      · rintro ⟨front, rest, h, kept⟩
        cases front with
        | nil =>
          cases h
          exact Or.inl ⟨rfl, kept⟩
        | cons x front =>
          cases h
          exact Or.inr ⟨front, rest, rfl, kept⟩
      · rintro (⟨rfl, kept⟩ | ⟨front, rest, rfl, kept⟩)
        · exact ⟨[], items, rfl, kept⟩
        · exact ⟨item :: front, rest, rfl, kept⟩
    rw [split, mergeAnti]
    cases hs : (search item anti).1 with
    | true => simp [hs]
    | false => simp [hs]

theorem mergeAnti_sublist (items anti : List α) : (mergeAnti items anti).Sublist items := by
  induction items generalizing anti with
  | nil => exact List.Sublist.refl _
  | cons item items ih =>
    rw [mergeAnti]
    split
    split
    · exact (ih _).cons_cons item
    · exact (ih _).cons item

section Late

/-- The item right before a late one: a greater item directly in front of it. -/
def late (items : List α) (n : α) : Option α :=
  (items.takeWhile (· ≠ n)).getLast?.filter (n < ·)

/-- Greater items in front of an item stand right before it. -/
def LateRuns (items : List α) : Prop :=
  ∀ x y n, [x, y, n].Sublist items → n < x → n < y

variable {items anti : List α}

variable {front rest : List α} {n : α}

theorem takeWhile_ne (fresh : n ∉ front) :
    (front ++ n :: rest).takeWhile (· ≠ n) = front := by
  induction front with
  | nil => simp
  | cons x front ih =>
    have hx : x ≠ n := fun same => fresh (same ▸ List.mem_cons_self)
    rw [List.cons_append, List.takeWhile_cons, if_pos (decide_eq_true hx),
      ih (fun h => fresh (List.mem_cons_of_mem x h))]

omit [LinearOrder α] in
theorem not_mem_front (nodup : (front ++ n :: rest).Nodup) :
    n ∉ front :=
  fun h => (List.disjoint_of_nodup_append nodup) h List.mem_cons_self

/-- An item splits a list without repeats in one way. -/
theorem split_unique {front' rest' : List α} (nodup : (front ++ n :: rest).Nodup)
    (h : front' ++ n :: rest' = front ++ n :: rest) :
    front' = front ∧ rest' = rest := by
  have same := congrArg (List.takeWhile (· ≠ n)) h
  rw [takeWhile_ne (not_mem_front (h ▸ nodup)), takeWhile_ne (not_mem_front nodup)] at same
  subst same
  exact ⟨rfl, (List.cons.inj (List.append_cancel_left h)).2⟩

theorem late_append (nodup : (front ++ n :: rest).Nodup) :
    late (front ++ n :: rest) n = front.getLast?.filter (n < ·) := by
  rw [late, takeWhile_ne (not_mem_front nodup)]

theorem late_eq_some {x : α} (nodup : (front ++ n :: rest).Nodup)
    (h : late (front ++ n :: rest) n = some x) : n < x ∧ ∃ init, front = init ++ [x] := by
  rw [late_append nodup, Option.filter_eq_some_iff] at h
  refine ⟨of_decide_eq_true h.2, ?_⟩
  obtain ⟨init, rfl⟩ := List.getLast?_eq_some_iff.mp h.1
  exact ⟨init, rfl⟩

/-- Before an item that is not late there are smaller items only. -/
theorem lt_of_late_eq_none (nodup : (front ++ n :: rest).Nodup)
    (runs : LateRuns (front ++ n :: rest)) (h : late (front ++ n :: rest) n = none) :
    ∀ x ∈ front, x < n := by
  rw [late_append nodup, Option.filter_eq_none_iff] at h
  intro x hx
  have apart : x ≠ n := fun same => not_mem_front nodup (same ▸ hx)
  rcases List.eq_nil_or_concat front with rfl | ⟨init, y, rfl⟩
  · cases hx
  · rw [List.concat_eq_append] at *
    have last : ¬ n < y := by simpa using h y (by simp)
    rcases List.mem_append.mp hx with early | single
    · refine lt_of_le_of_ne (le_of_not_gt fun greater => last ?_) apart
      refine runs x y n ?_ greater
      have one : [x].Sublist init := List.singleton_sublist.mpr early
      have two : [y, n].Sublist ([y] ++ n :: rest) := by simp
      simpa using one.append two
    · obtain rfl := List.mem_singleton.mp single
      exact lt_of_le_of_ne (le_of_not_gt last) apart

/-- Where a search stands in a list without repeats, as long as the item is ahead. -/
theorem after_split {before behind : List α} (nodup : (before ++ n :: behind).Nodup)
    (ahead : n ∈ after front (before ++ n :: behind)) :
    ∃ skipped passed, before = skipped ++ passed ∧
      after front (before ++ n :: behind) = passed ++ n :: behind := by
  obtain ⟨skipped, whole⟩ := after_suffix front (before ++ n :: behind)
  obtain ⟨passed, left, shape⟩ := List.append_of_mem ahead
  have joined : (skipped ++ passed) ++ n :: left = before ++ n :: behind := by
    rw [← whole, shape, List.append_assoc]
  obtain ⟨same, rfl⟩ := split_unique nodup joined
  exact ⟨skipped, passed, same.symm, shape⟩

theorem after_found {init start behind : List α} {x : α} (nodup : (start ++ x :: behind).Nodup)
    (found : (search x (after init (start ++ x :: behind))).1 = false) :
    after (init ++ [x]) (start ++ x :: behind) = behind := by
  rw [after_append]
  change (search x (after init _)).2 = behind
  rcases hs : search x (after init (start ++ x :: behind)) with ⟨add, left⟩
  rw [hs] at found
  change add = false at found
  subst found
  obtain ⟨front, shape, -⟩ := search_found_iff.mp hs
  have ahead : x ∈ after init (start ++ x :: behind) := by
    rw [shape]
    simp
  obtain ⟨skipped, passed, rfl, shape'⟩ := after_split nodup ahead
  have tail : (passed ++ x :: behind).Nodup := by
    rw [List.append_assoc] at nodup
    exact nodup.of_append_right
  exact (split_unique tail (shape.symm.trans shape')).2

theorem search_of_late (nodup : items.Nodup) (nodupAnti : anti.Nodup) (runs : LateRuns items)
    (runsAnti : LateRuns anti) (alike : ∀ n ∈ items, n ∈ anti → late items n = late anti n)
    (split : items = front ++ n :: rest) (common : n ∈ anti) :
    (search n (after front anti)).1 = false := by
  induction hl : front.length using Nat.strong_induction_on generalizing front rest n with
  | _ len ih =>
    obtain ⟨before, behind, place⟩ := List.append_of_mem common
    have same := alike n (split ▸ List.mem_append_right front List.mem_cons_self) common
    subst split place
    cases hlate : late (front ++ n :: rest) n with
    | some x =>
      rw [hlate] at same
      obtain ⟨greater, init, rfl⟩ := late_eq_some nodup hlate
      obtain ⟨-, start, rfl⟩ := late_eq_some nodupAnti same.symm
      -- The item before was found, so the next search starts right behind it.
      have found := @ih init.length (by simp at hl; omega) init (n :: rest) x (by simp)
        (by simp) rfl
      rw [List.append_assoc, List.singleton_append] at nodupAnti found ⊢
      rw [after_found nodupAnti found, search, if_neg (lt_irrefl n), if_pos rfl]
    | none =>
      rw [hlate] at same
      have small := lt_of_late_eq_none nodup runs hlate
      have smallAnti := lt_of_late_eq_none nodupAnti runsAnti same.symm
      have ahead : n ∈ after front (before ++ n :: behind) := by
        by_contra gone
        obtain ⟨x, hx, le⟩ := after_passed (by simp) gone
        exact absurd (small x hx) (not_lt_of_ge le)
      obtain ⟨skipped, passed, rfl, shape⟩ := after_split nodupAnti ahead
      have found : search n (after front (skipped ++ passed ++ n :: behind)) = (false, behind) :=
        search_found_iff.mpr ⟨passed, shape, fun b hb =>
          smallAnti b (List.mem_append_right skipped hb)⟩
      rw [found]

theorem late_of_search (nodup : items.Nodup) (nodupAnti : anti.Nodup) (runs : LateRuns items)
    (runsAnti : LateRuns anti) (split : items = front ++ n :: rest) (common : n ∈ anti)
    (found : (search n (after front anti)).1 = false) :
    late items n = late anti n := by
  obtain ⟨before, behind, place⟩ := List.append_of_mem common
  subst split place
  rcases hs : search n (after front (before ++ n :: behind)) with ⟨add, left⟩
  rw [hs] at found
  change add = false at found
  subst found
  obtain ⟨passed', shape', small⟩ := search_found_iff.mp hs
  have ahead : n ∈ after front (before ++ n :: behind) := by
    rw [shape']
    simp
  obtain ⟨skipped, passed, rfl, shape⟩ := after_split nodupAnti ahead
  have tail : (passed ++ n :: behind).Nodup := by
    rw [List.append_assoc] at nodupAnti
    exact nodupAnti.of_append_right
  obtain ⟨rfl, rfl⟩ := split_unique tail (shape'.symm.trans shape)
  cases hlate : late (front ++ n :: rest) n with
  | none =>
    -- No greater item was searched before, so a greater one in front would stop the search.
    have less := lt_of_late_eq_none nodup runs hlate
    cases hother : late (skipped ++ passed' ++ n :: left) n with
    | none => rfl
    | some y =>
      obtain ⟨greater, init, hinit⟩ := late_eq_some nodupAnti hother
      have gone : y ∉ after front (skipped ++ passed' ++ n :: left) := by
        rw [shape]
        intro hy
        rcases List.mem_append.mp hy with hy | hy
        · exact absurd (small y hy) (not_lt_of_gt greater)
        · have early : y ∈ skipped ++ passed' := by simp [hinit]
          exact (List.disjoint_of_nodup_append nodupAnti) early hy
      obtain ⟨x, hx, le⟩ := after_passed (by simp [hinit]) gone
      exact absurd ((less x hx).trans greater) (not_lt_of_ge le)
  | some x =>
    obtain ⟨greater, init, rfl⟩ := late_eq_some nodup hlate
    obtain ⟨start, joined⟩ := after_suffix init (skipped ++ passed' ++ n :: left)
    rw [after_append] at shape
    change (search x (after init _)).2 = _ at shape
    rcases hx : search x (after init (skipped ++ passed' ++ n :: left)) with ⟨_ | _, there⟩
    · rw [hx] at shape
      change there = _ at shape
      subst shape
      obtain ⟨lead, there, -⟩ := search_found_iff.mp hx
      rw [there] at joined
      cases passed' with
      | nil =>
        have whole : (start ++ lead ++ [x]) ++ n :: left = skipped ++ [] ++ n :: left := by
          simpa using joined
        rw [← whole, late_append (whole ▸ nodupAnti), List.getLast?_concat, Option.filter,
          if_pos (decide_eq_true greater)]
      | cons p passed =>
        -- A smaller item between the two would have to be greater.
        have triple : [x, p, n].Sublist (skipped ++ p :: passed ++ n :: left) := by
          rw [← joined]
          have inner : [n].Sublist (passed ++ n :: left) := by simp
          have tail : [x, p, n].Sublist (x :: p :: (passed ++ n :: left)) :=
            (inner.cons_cons p).cons_cons x
          exact tail.trans ((List.sublist_append_right lead _).trans
            (List.sublist_append_right start _))
        exact absurd (runsAnti x p n triple greater)
          (not_lt_of_gt (small p List.mem_cons_self))
    · rw [hx] at shape
      change there = _ at shape
      subst shape
      cases passed' with
      | nil => exact absurd (search_stopped hx) (not_lt_of_gt greater)
      | cons p passed =>
        exact absurd (search_stopped hx)
          (not_lt_of_gt ((small p List.mem_cons_self).trans greater))

/-- The merge is the difference of the lists exactly when their common items are late alike. -/
theorem mem_mergeAnti_iff (nodup : items.Nodup) (nodupAnti : anti.Nodup) (runs : LateRuns items)
    (runsAnti : LateRuns anti) :
    (∀ n, n ∈ mergeAnti items anti ↔ n ∈ items ∧ n ∉ anti) ↔
      ∀ n ∈ items, n ∈ anti → late items n = late anti n := by
  constructor
  · intro exact n hn common
    obtain ⟨front, rest, split⟩ := List.append_of_mem hn
    refine late_of_search nodup nodupAnti runs runsAnti split common ?_
    by_contra missed
    have kept : n ∈ mergeAnti items anti :=
      (mem_mergeAnti nodup).mpr ⟨front, rest, split, by simpa using missed⟩
    exact ((exact n).mp kept).2 common
  · intro alike n
    rw [mem_mergeAnti nodup]
    constructor
    · rintro ⟨front, rest, split, kept⟩
      refine ⟨split ▸ by simp, fun common => ?_⟩
      rw [search_of_late nodup nodupAnti runs runsAnti alike split common] at kept
      cases kept
    · rintro ⟨hn, absent⟩
      obtain ⟨front, rest, split⟩ := List.append_of_mem hn
      refine ⟨front, rest, split, ?_⟩
      by_contra found
      rcases hs : search n (after front anti) with ⟨add, left⟩
      rw [hs] at found
      have miss : add = false := by simpa using found
      subst miss
      obtain ⟨lead, shape, -⟩ := search_found_iff.mp hs
      exact absent ((after_suffix front anti).subset (shape ▸ by simp))

end Late

/-- Words that are ascending with an ending on each are nearly ascending without it. -/
theorem lateRuns_of_ext {c : α} (first : ∀ d ∈ rest, c < d) {words : List (List α)}
    (sorted : words.Pairwise (fun a b => a ++ c :: rest < b ++ c :: rest)) : LateRuns words := by
  intro x y n sub greater
  have order := sorted.sublist sub
  rw [List.pairwise_cons, List.pairwise_cons] at order
  exact LexOrder.lt_of_ext_order first (order.1 y (by simp)) (order.2.1 n (by simp)) greater

end AntiMerge
