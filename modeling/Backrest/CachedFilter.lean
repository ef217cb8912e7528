import Mathlib.Data.List.Chain
import Mathlib.Order.Defs.LinearOrder
import Mathlib.Order.Lattice

/-!
# A filter that remembers its last verdict

A pass over an ascending list removes the entries with a bad verdict. It looks a
verdict up when the key of an entry differs from the key before and reuses the
last one otherwise. `scan_eq_filter_iff` says when this is the filter by the
verdicts themselves: neighbours of one key have one verdict.
-/

namespace CachedFilter

universe u v w

structure Query (ν : Type v) (κ : Type w) where
  counts : ν → Bool
  key : ν → κ
  verdict : ν → Bool

structure Last (κ : Type w) where
  key : κ
  verdict : Bool

variable {α : Type u} {ν : Type v} {κ : Type w}

def Query.keeps (q : Query ν κ) (n : ν) : Bool := !(q.counts n && q.verdict n)

def Query.filtered (q : Query ν κ) (name : α → ν) (as : List α) : List α :=
  as.filter (fun a => q.keeps (name a))

variable {q : Query ν κ} {name : α → ν} {as : List α}

theorem filtered_kept {a : α} (h : q.keeps (name a) = true) :
    q.filtered name (a :: as) = a :: q.filtered name as :=
  List.filter_cons_of_pos h

theorem filtered_removed {a : α} (h : ¬ q.keeps (name a) = true) :
    q.filtered name (a :: as) = q.filtered name as :=
  List.filter_cons_of_neg h

theorem keeps_iff {n : ν} : q.keeps n = true ↔ (q.counts n = true → q.verdict n = false) := by
  unfold Query.keeps
  cases q.counts n <;> cases q.verdict n <;> decide

variable [DecidableEq κ]

def Query.look (q : Query ν κ) (last : Last κ) (n : ν) : Last κ :=
  if last.key ≠ q.key n then ⟨q.key n, q.verdict n⟩ else last

def scan (q : Query ν κ) (name : α → ν) : Last κ → List α → List α
  | _, [] => []
  | last, a :: rest =>
    if q.counts (name a) = true then
      if (q.look last (name a)).verdict = true then scan q name (q.look last (name a)) rest
      else a :: scan q name (q.look last (name a)) rest
    else a :: scan q name last rest

/-- Two names of one key have one verdict. -/
def Query.SameVerdict (q : Query ν κ) (m n : ν) : Prop :=
  q.key m = q.key n → q.verdict m = q.verdict n

variable {last : Last κ}

@[simp]
theorem look_key (n : ν) : (q.look last n).key = q.key n := by
  unfold Query.look
  by_cases h : last.key ≠ q.key n
  · rw [if_pos h]
  · rw [if_neg h]
    exact not_not.mp h

theorem look_same {n : ν} (h : q.key n = last.key) : q.look last n = last :=
  if_neg (not_not.mpr h.symm)

theorem look_new {n : ν} (h : q.key n ≠ last.key) : q.look last n = ⟨q.key n, q.verdict n⟩ :=
  if_pos (Ne.symm h)

theorem scan_other {a : α} (h : ¬ q.counts (name a) = true) :
    scan q name last (a :: as) = a :: scan q name last as :=
  if_neg h

theorem scan_counted {a : α} (h : q.counts (name a) = true) :
    scan q name last (a :: as) =
      if (q.look last (name a)).verdict = true then scan q name (q.look last (name a)) as
      else a :: scan q name (q.look last (name a)) as :=
  if_pos h

theorem scan_sublist : (scan q name last as).Sublist as := by
  induction as generalizing last with
  | nil => exact List.Sublist.refl _
  | cons a rest ih =>
    by_cases hc : q.counts (name a) = true
    · rw [scan_counted hc]
      by_cases hv : (q.look last (name a)).verdict = true
      · rw [if_pos hv]
        exact ih.cons a
      · rw [if_neg hv]
        exact ih.cons_cons a
    · rw [scan_other hc]
      exact ih.cons_cons a

variable [LinearOrder ν]

/-- Entries of one name are neighbours, so all of them are removed with the first. -/
theorem scan_removes {n : ν} (sorted : as.Pairwise (fun a b => name a ≤ name b))
    (from_n : ∀ a ∈ as, n ≤ name a) (counts : q.counts n = true) (key : last.key = q.key n)
    (bad : last.verdict = true) : ∀ a ∈ scan q name last as, name a ≠ n := by
  induction as with
  | nil => exact nofun
  | cons a rest ih =>
    have sorted_rest := List.pairwise_cons.mp sorted
    by_cases same : name a = n
    · rw [scan_counted (same ▸ counts), same, look_same key.symm, if_pos bad]
      exact ih sorted_rest.2 (fun b hb => from_n b (List.mem_cons_of_mem a hb))
    · intro b hb
      have later : n < name a := lt_of_le_of_ne (from_n a List.mem_cons_self) (Ne.symm same)
      rcases List.mem_cons.mp (scan_sublist.mem hb) with rfl | hb
      · exact same
      · exact ne_of_gt (lt_of_lt_of_le later (sorted_rest.1 b hb))

theorem scan_eq_filter_iff (sorted : as.Pairwise (fun a b => name a ≤ name b)) :
    scan q name last as = q.filtered name as ↔
      (∀ n ∈ ((as.map name).filter q.counts).head?,
          last.key = q.key n → last.verdict = q.verdict n) ∧
        ((as.map name).filter q.counts).IsChain q.SameVerdict := by
  induction as generalizing last with
  | nil => exact ⟨fun _ => ⟨nofun, List.IsChain.nil⟩, fun _ => rfl⟩
  | cons a rest ih =>
    have sorted_rest := List.pairwise_cons.mp sorted
    by_cases hc : q.counts (name a) = true
    · rw [List.map_cons, List.filter_cons_of_pos hc, List.isChain_cons, List.head?_cons,
        scan_counted hc]
      by_cases right : last.key = q.key (name a) → last.verdict = q.verdict (name a)
      · have looked : q.look last (name a) = ⟨q.key (name a), q.verdict (name a)⟩ := by
          by_cases hk : last.key = q.key (name a)
          · rw [look_same hk.symm, ← hk, ← right hk]
          · exact look_new (Ne.symm hk)
        have first : ∀ n ∈ some (name a), last.key = q.key n → last.verdict = q.verdict n := by
          rintro n hn
          cases hn
          exact right
        rw [looked, and_iff_right first]
        by_cases hv : q.verdict (name a) = true
        · rw [if_pos hv, filtered_removed (by simp [keeps_iff, hc, hv])]
          exact ih sorted_rest.2
        · rw [if_neg hv, filtered_kept (by simp [keeps_iff, hv]), List.cons_inj_right]
          exact ih sorted_rest.2
      · obtain ⟨hk, hv⟩ := Classical.not_imp.mp right
        constructor
        · intro same
          exfalso
          rw [look_same hk.symm] at same
          by_cases hl : last.verdict = true
          · have good : q.verdict (name a) = false := by
              rw [hl] at hv
              exact Bool.eq_false_iff.mpr (Ne.symm hv)
            rw [if_pos hl, filtered_kept (keeps_iff.mpr fun _ => good)] at same
            have there : a ∈ scan q name last rest := same ▸ List.mem_cons_self
            exact scan_removes sorted_rest.2 sorted_rest.1 hc hk hl a there rfl
          · have bad : ¬ q.keeps (name a) = true := by
              intro keeps
              exact hv ((Bool.eq_false_iff.mpr hl).trans (keeps_iff.mp keeps hc).symm)
            rw [if_neg hl, filtered_removed bad] at same
            have there : a ∈ q.filtered name rest := same ▸ List.mem_cons_self
            exact bad (List.mem_filter.mp there).2
        · rintro ⟨first, -⟩
          exact absurd (first (name a) rfl) right
    · rw [scan_other hc, filtered_kept (keeps_iff.mpr fun h => absurd h hc), List.map_cons,
        List.filter_cons_of_neg hc, List.cons_inj_right]
      exact ih sorted_rest.2

end CachedFilter
