import Mathlib.Data.List.SplitBy
import Mathlib.Order.Defs.LinearOrder
import Mathlib.Order.Lattice

/-!
# Maximal runs of a list

A list is split where two neighbours are not related. Each run is told by its first and its
last item. When an item is added at the end, it extends the last run or starts one. The
runs of a list in ascending order do not meet, and an item is in the first run that does
not end before it.
-/

namespace AdjacentRuns

universe u

variable {α : Type u}

/-- The first and the last item of a run. -/
structure Span (α : Type u) where
  start : α
  stop : α
  deriving DecidableEq

def spanOf (run : List α) : Option (Span α) :=
  run.head?.bind fun start => run.getLast?.map fun stop => ⟨start, stop⟩

/-- The ends of the maximal runs in which each item is related to the next. -/
def spans (R : α → α → Bool) (items : List α) : List (Span α) := (items.splitBy R).filterMap spanOf

/-- Add an item to the last run, or start a run with it. -/
def extend (R : α → α → Bool) (spans : List (Span α)) (a : α) : List (Span α) :=
  match spans.getLast? with
  | none => spans ++ [⟨a, a⟩]
  | some last =>
    if R last.stop a = true then spans.dropLast ++ [⟨last.start, a⟩] else spans ++ [⟨a, a⟩]

section Concat

variable {R : α → α → Bool}

theorem spanOf_concat (front : List α) (a : α) :
    spanOf (front ++ [a]) = some ⟨(front ++ [a]).head (by simp), a⟩ := by
  rw [spanOf, List.head?_eq_some_head (by simp), List.getLast?_concat]
  rfl

theorem spanOf_isSome {run : List α} (some : run ≠ []) : ∃ span, spanOf run = Option.some span := by
  obtain ⟨front, a, rfl⟩ := List.eq_nil_or_concat run |>.resolve_left some
  exact ⟨_, by rw [List.concat_eq_append, spanOf_concat]⟩

/-- An item at the end that is related to the last one belongs to the last run. -/
theorem splitBy_concat_related {front : List (List α)} {run : List α} {items : List α} {b a : α}
    (split : items.splitBy R = front ++ [run ++ [b]]) (related : R b a = true) :
    (items ++ [a]).splitBy R = front ++ [run ++ [b] ++ [a]] := by
  obtain ⟨flat, notNil, chains, apart⟩ := List.splitBy_eq_iff.mp split
  rw [List.splitBy_eq_iff]
  refine ⟨?_, ?_, ?_, ?_⟩
  · rw [flat]
    simp
  · intro mem
    rcases List.mem_append.mp mem with mem | mem
    · exact notNil (List.mem_append_left _ mem)
    · simp at mem
  · intro m mem
    rcases List.mem_append.mp mem with mem | mem
    · exact chains m (List.mem_append_left _ mem)
    · rw [List.mem_singleton.mp mem]
      refine List.isChain_append.mpr ⟨chains _ (List.mem_append_right _ (List.mem_singleton_self _)),
        List.isChain_singleton a, ?_⟩
      intro x isLast y isHead
      rw [List.getLast?_concat, Option.mem_some_iff] at isLast
      rw [List.head?_cons, Option.mem_some_iff] at isHead
      rw [← isLast, ← isHead]
      exact related
  · obtain ⟨apartFront, -, last⟩ := List.isChain_append.mp apart
    refine List.isChain_append.mpr ⟨apartFront, List.isChain_singleton _, ?_⟩
    intro x isLast y isHead
    rw [List.head?_cons, Option.mem_some_iff] at isHead
    obtain ⟨hx, hy, no⟩ := last x isLast (run ++ [b]) (by simp)
    subst isHead
    refine ⟨hx, by simp, ?_⟩
    rw [List.head_append_of_ne_nil hy]
    exact no

theorem spans_concat (items : List α) (a : α) :
    spans R (items ++ [a]) = extend R (spans R items) a := by
  rcases List.eq_nil_or_concat items with rfl | ⟨front, b, rfl⟩
  · rfl
  rw [List.concat_eq_append]
  have some : front ++ [b] ≠ [] := by simp
  obtain ⟨runs, last, split⟩ := (List.eq_nil_or_concat ((front ++ [b]).splitBy R)).resolve_left
    (List.splitBy_ne_nil.mpr some)
  rw [List.concat_eq_append] at split
  have lastSome : last ≠ [] := List.ne_nil_of_mem_splitBy (by rw [split]; simp)
  obtain ⟨run, c, rfl⟩ := (List.eq_nil_or_concat last).resolve_left lastSome
  rw [List.concat_eq_append] at split
  -- the last item of the list is that of the last run
  have same : c = b := by
    have flat := List.flatten_splitBy R (front ++ [b])
    rw [split] at flat
    have ends := congrArg List.getLast? flat
    simpa using ends
  subst same
  have before : spans R (front ++ [c]) = runs.filterMap spanOf ++ [⟨(run ++ [c]).head (by simp), c⟩] := by
    rw [spans, split, List.filterMap_append, List.filterMap_cons, spanOf_concat]
    rfl
  rw [before, extend, List.getLast?_concat]
  dsimp only
  by_cases related : R c a = true
  · rw [if_pos related, spans, splitBy_concat_related split related, List.filterMap_append,
      List.filterMap_cons, spanOf_concat, List.dropLast_concat]
    dsimp only
    rw [List.head_append_of_ne_nil (by simp)]
    rfl
  · rw [if_neg related, spans, List.splitBy_append ?_, split, List.filterMap_append,
      List.filterMap_append, List.filterMap_cons, spanOf_concat]
    · rfl
    · intro x isLast y isHead
      rw [List.getLast?_concat, Option.mem_some_iff] at isLast
      rw [List.head?_cons, Option.mem_some_iff] at isHead
      rw [← isLast, ← isHead]
      exact Bool.eq_false_iff.mpr related

end Concat

section Order

variable [LinearOrder α] {R : α → α → Bool} {items : List α}

omit [LinearOrder α] in
theorem mem_spans {span : Span α} : span ∈ spans R items ↔
    ∃ run ∈ items.splitBy R, run.head? = some span.start ∧ run.getLast? = some span.stop := by
  rw [spans, List.mem_filterMap]
  refine exists_congr fun run => and_congr_right fun _ => ?_
  rw [spanOf, Option.bind_eq_some_iff]
  constructor
  · rintro ⟨start, head, ends⟩
    obtain ⟨stop, last, rfl⟩ := Option.map_eq_some_iff.mp ends
    exact ⟨head, last⟩
  · rintro ⟨head, last⟩
    exact ⟨_, head, Option.map_eq_some_iff.mpr ⟨_, last, rfl⟩⟩

theorem pairwise_runs (sorted : items.Pairwise (· < ·)) :
    (∀ run ∈ items.splitBy R, run.Pairwise (· < ·)) ∧
      (items.splitBy R).Pairwise (fun p q => ∀ a ∈ p, ∀ b ∈ q, a < b) := by
  rw [← List.flatten_splitBy R items, List.pairwise_flatten] at sorted
  exact sorted

theorem between_ends {run : List α} {a start stop : α} (sorted : run.Pairwise (· < ·))
    (head : run.head? = some start) (last : run.getLast? = some stop) (mem : a ∈ run) :
    start ≤ a ∧ a ≤ stop := by
  constructor
  · obtain ⟨rest, rfl⟩ := List.head?_eq_some_iff.mp head
    rcases List.mem_cons.mp mem with rfl | mem
    · exact le_rfl
    · exact ((List.pairwise_cons.mp sorted).1 a mem).le
  · obtain ⟨front, rfl⟩ := List.getLast?_eq_some_iff.mp last
    rcases List.mem_append.mp mem with mem | mem
    · exact ((List.pairwise_append.mp sorted).2.2 a mem stop (List.mem_singleton_self _)).le
    · exact (List.mem_singleton.mp mem).le

section Sorted
variable (sorted : items.Pairwise (· < ·))
include sorted

theorem spans_pairwise : (spans R items).Pairwise (fun p q => p.stop < q.start) := by
  rw [spans, List.pairwise_filterMap]
  refine (pairwise_runs sorted).2.imp fun {p q} apart span isSpan span' isSpan' => ?_
  rw [spanOf, Option.bind_eq_some_iff] at isSpan isSpan'
  obtain ⟨start, -, ends⟩ := isSpan
  obtain ⟨start', head', ends'⟩ := isSpan'
  obtain ⟨stop, last, rfl⟩ := Option.map_eq_some_iff.mp ends
  obtain ⟨stop', -, rfl⟩ := Option.map_eq_some_iff.mp ends'
  exact apart stop (List.mem_of_getLast? last) start' (List.mem_of_head? head')

theorem start_le_stop {span : Span α} (mem : span ∈ spans R items) : span.start ≤ span.stop := by
  obtain ⟨run, isRun, head, last⟩ := mem_spans.mp mem
  exact (between_ends ((pairwise_runs sorted).1 run isRun) head last (List.mem_of_head? head)).2

theorem exists_span {a : α} (mem : a ∈ items) :
    ∃ span ∈ spans R items, span.start ≤ a ∧ a ≤ span.stop := by
  rw [← List.flatten_splitBy R items, List.mem_flatten] at mem
  obtain ⟨run, isRun, mem⟩ := mem
  obtain ⟨span, isSpan⟩ := spanOf_isSome (List.ne_nil_of_mem mem)
  have isMem : span ∈ spans R items := List.mem_filterMap.mpr ⟨run, isRun, isSpan⟩
  refine ⟨span, isMem, ?_⟩
  rw [spanOf, Option.bind_eq_some_iff] at isSpan
  obtain ⟨start, head, ends⟩ := isSpan
  obtain ⟨stop, last, rfl⟩ := Option.map_eq_some_iff.mp ends
  exact between_ends ((pairwise_runs sorted).1 run isRun) head last mem

theorem stop_lt {front back : List (Span α)} {span : Span α} {a : α}
    (split : spans R items = front ++ span :: back)
    (low : span.start ≤ a) : ∀ p ∈ front, p.stop < a := by
  intro p mem
  have apart := spans_pairwise (R := R) sorted
  rw [split, List.pairwise_append] at apart
  exact (apart.2.2 p mem span List.mem_cons_self).trans_le low

theorem lt_start {front back : List (Span α)} {span : Span α} {a : α}
    (split : spans R items = front ++ span :: back)
    (high : a ≤ span.stop) : ∀ p ∈ back, a < p.start := by
  intro p mem
  have apart := spans_pairwise (R := R) sorted
  rw [split, List.pairwise_append, List.pairwise_cons] at apart
  exact high.trans_lt (apart.2.1.1 p mem)

theorem le_last_stop {span : Span α} {a : α} (mem : a ∈ items)
    (last : (spans R items).getLast? = some span) : a ≤ span.stop := by
  obtain ⟨own, isOwn, low, high⟩ := exists_span (R := R) sorted mem
  obtain ⟨front, split⟩ := List.getLast?_eq_some_iff.mp last
  have apart := spans_pairwise (R := R) sorted
  rw [split] at isOwn
  rw [split, List.pairwise_append] at apart
  rcases List.mem_append.mp isOwn with before | same
  · have first := apart.2.2 own before span (List.mem_singleton_self _)
    have ends : span ∈ spans R items := List.mem_of_getLast? last
    exact high.trans (first.le.trans (start_le_stop sorted ends))
  · rwa [List.mem_singleton.mp same] at high

theorem span_unique {a : α} {p q : Span α}
    (isP : p ∈ spans R items) (isQ : q ∈ spans R items) (inP : p.start ≤ a ∧ a ≤ p.stop)
    (inQ : q.start ≤ a ∧ a ≤ q.stop) : p = q := by
  obtain ⟨front, back, split⟩ := List.append_of_mem isP
  rw [split] at isQ
  rcases List.mem_append.mp isQ with before | after
  · exact absurd inQ.2 (stop_lt sorted split inP.1 q before).not_ge
  rcases List.mem_cons.mp after with same | after
  · exact same.symm
  · exact absurd inQ.1 (lt_start sorted split inP.2 q after).not_ge

end Sorted

end Order

end AdjacentRuns
