import Mathlib.Order.Basic
import Mathlib.Data.List.Basic
import Mathlib.Order.Lattice

/-!
# Ranges of removed keys

A scan over keys in increasing order collects the removed ones into ranges. A
kept key closes the pending range. A group of keys that is removed as a whole
starts a range with the key of the group, and takes the place of the pending
range, which is then never reported. Where no group comes while a range is
pending, the ranges hold the removed keys and no others.
-/

namespace RangeScan

universe u

inductive Token (κ : Type u) where
  | whole (key : κ)
  | drop (key : κ)
  | keep (key : κ)

variable {κ : Type u}

def Token.key : Token κ → κ
  | .whole k | .drop k | .keep k => k

def Token.isKeep : Token κ → Bool
  | .keep _ => true
  | _ => false

def push (pending : Option (κ × κ)) : Token κ → Option (κ × κ)
  | .whole k => some (k, k)
  | .drop k => some ((pending.map (·.1)).getD k, k)
  | .keep _ => none

def close (pending : Option (κ × κ)) : Token κ → List (κ × κ)
  | .keep _ => pending.toList
  | _ => []

def ranges : Option (κ × κ) → List (Token κ) → List (κ × κ)
  | pending, [] => pending.toList
  | pending, t :: rest => close pending t ++ ranges (push pending t) rest

/-- No group comes while a range is pending. -/
def Separate : Bool → List (Token κ) → Prop
  | _, [] => True
  | pending, .whole _ :: rest => pending = false ∧ Separate true rest
  | _, .drop _ :: rest => Separate true rest
  | _, .keep _ :: rest => Separate false rest

instance Separate.decidable : (pending : Bool) → (tokens : List (Token κ)) →
    Decidable (Separate pending tokens)
  | _, [] => isTrue trivial
  | pending, .whole _ :: rest =>
    let _ := Separate.decidable true rest
    inferInstanceAs (Decidable (pending = false ∧ Separate true rest))
  | _, .drop _ :: rest => Separate.decidable true rest
  | _, .keep _ :: rest => Separate.decidable false rest

theorem separate_push {pending : Option (κ × κ)} {t : Token κ} {rest : List (Token κ)}
    (separate : Separate pending.isSome (t :: rest)) :
    Separate (push pending t).isSome rest := by
  cases t with
  | whole k => exact separate.2
  | drop k => exact separate
  | keep k => exact separate

theorem start_of_mem_ranges {tokens : List (Token κ)} {pending : Option (κ × κ)} {r : κ × κ}
    (h : r ∈ ranges pending tokens) :
    (∃ b, pending = some (r.1, b)) ∨ ∃ t ∈ tokens, t.isKeep = false ∧ t.key = r.1 := by
  induction tokens generalizing pending with
  | nil =>
    rw [ranges, Option.mem_toList] at h
    exact Or.inl ⟨r.2, h⟩
  | cons t rest ih =>
    rw [ranges, List.mem_append] at h
    rcases h with h | h
    · cases t with
      | keep k => exact Or.inl ⟨r.2, Option.mem_toList.mp h⟩
      | _ => simp [close] at h
    · rcases ih h with ⟨b, hb⟩ | ⟨t', mem, removed, start⟩
      · cases t with
        | whole k =>
          simp only [push, Option.some.injEq, Prod.mk.injEq] at hb
          exact Or.inr ⟨.whole k, List.mem_cons_self, rfl, hb.1⟩
        | drop k =>
          cases pending with
          | none =>
            simp only [push, Option.map_none, Option.getD_none, Option.some.injEq,
              Prod.mk.injEq] at hb
            exact Or.inr ⟨.drop k, List.mem_cons_self, rfl, hb.1⟩
          | some p =>
            simp only [push, Option.map_some, Option.getD_some, Option.some.injEq,
              Prod.mk.injEq] at hb
            exact Or.inl ⟨p.2, by rw [← hb.1]⟩
        | keep k => cases hb
      · exact Or.inr ⟨t', List.mem_cons_of_mem t mem, removed, start⟩

/-- A range stops at a removed key, or is a group that stands alone. -/
theorem stop_of_mem_ranges {tokens : List (Token κ)} {pending : Option (κ × κ)} {r : κ × κ}
    (h : r ∈ ranges pending tokens) :
    pending = some r ∨ .drop r.2 ∈ tokens ∨ (.whole r.2 ∈ tokens ∧ r.1 = r.2) := by
  induction tokens generalizing pending with
  | nil =>
    rw [ranges, Option.mem_toList] at h
    exact Or.inl h
  | cons t rest ih =>
    rw [ranges, List.mem_append] at h
    rcases h with h | h
    · cases t with
      | keep k => exact Or.inl (Option.mem_toList.mp h)
      | _ => simp [close] at h
    · rcases ih h with hp | mem | ⟨mem, alone⟩
      · cases t with
        | whole k =>
          simp only [push, Option.some.injEq] at hp
          subst hp
          exact Or.inr (Or.inr ⟨List.mem_cons_self, rfl⟩)
        | drop k =>
          simp only [push, Option.some.injEq] at hp
          subst hp
          exact Or.inr (Or.inl List.mem_cons_self)
        | keep k => cases hp
      · exact Or.inr (Or.inl (List.mem_cons_of_mem t mem))
      · exact Or.inr (Or.inr ⟨List.mem_cons_of_mem t mem, alone⟩)

section Order
variable [LinearOrder κ] {tokens : List (Token κ)}

structure Sorted (tokens : List (Token κ)) : Prop where
  order : tokens.Pairwise (fun t t' => t.key ≤ t'.key)
  same : ∀ t ∈ tokens, ∀ t' ∈ tokens, t.key = t'.key → t.isKeep = t'.isKeep

theorem Sorted.tail {t : Token κ} (h : Sorted (t :: tokens)) : Sorted tokens :=
  ⟨(List.pairwise_cons.mp h.order).2, fun t ht t' ht' =>
    h.same t (List.mem_cons_of_mem _ ht) t' (List.mem_cons_of_mem _ ht')⟩

theorem Sorted.head_le {t t' : Token κ} (h : Sorted (t :: tokens)) (mem : t' ∈ tokens) :
    t.key ≤ t'.key :=
  (List.pairwise_cons.mp h.order).1 t' mem

/-- The pending range is reported, and only grows until then. -/
theorem pending_mem_ranges (sorted : Sorted tokens) {a b : κ}
    (above : ∀ t ∈ tokens, b ≤ t.key) (separate : Separate true tokens) :
    ∃ b', b ≤ b' ∧ (a, b') ∈ ranges (some (a, b)) tokens := by
  induction tokens generalizing b with
  | nil => exact ⟨b, le_refl b, by simp [ranges]⟩
  | cons t rest ih =>
    cases t with
    | whole k => cases separate.1
    | drop k =>
      obtain ⟨b', le, mem⟩ := ih sorted.tail (fun t ht => sorted.head_le ht) separate
      exact ⟨b', le_trans (above (.drop k) List.mem_cons_self) le, mem⟩
    | keep k => exact ⟨b, le_refl b, by simp [ranges, close]⟩

theorem push_bounds {pending : Option (κ × κ)} {head : Token κ}
    (above : ∀ p ∈ pending, p.1 ≤ p.2 ∧ p.2 ≤ head.key) :
    ∀ p ∈ push pending head, p.1 ≤ p.2 ∧ p.2 = head.key := by
  intro p hp
  cases head with
  | whole k =>
    cases hp
    exact ⟨le_refl k, rfl⟩
  | drop k =>
    cases pending with
    | none =>
      cases hp
      exact ⟨le_refl k, rfl⟩
    | some q =>
      cases hp
      have bound := above q rfl
      exact ⟨le_trans bound.1 bound.2, rfl⟩
  | keep k => cases hp

theorem start_le_stop (sorted : Sorted tokens) (pending : Option (κ × κ))
    (above : ∀ p ∈ pending, p.1 ≤ p.2 ∧ ∀ t ∈ tokens, p.2 ≤ t.key) {r : κ × κ}
    (hr : r ∈ ranges pending tokens) : r.1 ≤ r.2 := by
  induction tokens generalizing pending with
  | nil => exact (above r (Option.mem_toList.mp hr)).1
  | cons head rest ih =>
    rw [ranges, List.mem_append] at hr
    rcases hr with hr | hr
    · cases head with
      | whole k => simp [close] at hr
      | drop k => simp [close] at hr
      | keep k => exact (above r (Option.mem_toList.mp hr)).1
    · refine ih sorted.tail (push pending head) (fun p hp => ?_) hr
      obtain ⟨le, stop⟩ := push_bounds (fun p hp =>
        ⟨(above p hp).1, (above p hp).2 head List.mem_cons_self⟩) p hp
      exact ⟨le, fun t ht => stop ▸ sorted.head_le ht⟩

theorem exists_range_of_removed (sorted : Sorted tokens) (pending : Option (κ × κ))
    (above : ∀ p ∈ pending, p.1 ≤ p.2 ∧ ∀ t ∈ tokens, p.2 ≤ t.key)
    (separate : Separate pending.isSome tokens) {t : Token κ} (mem : t ∈ tokens)
    (removed : t.isKeep = false) :
    ∃ r ∈ ranges pending tokens, r.1 ≤ t.key ∧ t.key ≤ r.2 := by
  induction tokens generalizing pending with
  | nil => cases mem
  | cons head rest ih =>
    have after : ∀ p ∈ push pending head, p.1 ≤ p.2 ∧ p.2 = head.key := push_bounds (fun p hp =>
      ⟨(above p hp).1, (above p hp).2 head List.mem_cons_self⟩)
    have above' : ∀ p ∈ push pending head, p.1 ≤ p.2 ∧ ∀ t ∈ rest, p.2 ≤ t.key := by
      intro p hp
      obtain ⟨le, stop⟩ := after p hp
      exact ⟨le, fun t ht => stop ▸ sorted.head_le ht⟩
    rcases List.mem_cons.mp mem with rfl | later
    · obtain ⟨p, hp⟩ : ∃ p, push pending t = some p := by
        cases t with
        | whole k => exact ⟨_, rfl⟩
        | drop k => exact ⟨_, rfl⟩
        | keep k => cases removed
      obtain ⟨le, stop⟩ := after p hp
      have still := separate_push separate
      rw [hp] at still
      obtain ⟨b', le', hb'⟩ := pending_mem_ranges (a := p.1) sorted.tail (above' p hp).2 still
      refine ⟨(p.1, b'), ?_, stop ▸ le, stop ▸ le'⟩
      rw [ranges, hp]
      exact List.mem_append_right _ hb'
    · obtain ⟨r, hr, inside⟩ := ih sorted.tail _ above' (separate_push separate) later
      exact ⟨r, by rw [ranges]; exact List.mem_append_right _ hr, inside⟩

/-- A group starts a range. -/
theorem exists_range_of_whole (sorted : Sorted tokens) (pending : Option (κ × κ))
    (separate : Separate pending.isSome tokens) {k : κ} (mem : .whole k ∈ tokens) :
    ∃ b, (k, b) ∈ ranges pending tokens := by
  induction tokens generalizing pending with
  | nil => cases mem
  | cons head rest ih =>
    rcases List.mem_cons.mp mem with rfl | later
    · obtain ⟨b, -, hb⟩ := pending_mem_ranges (a := k) (b := k) sorted.tail
        (fun t ht => sorted.head_le ht) separate.2
      exact ⟨b, by rw [ranges]; exact List.mem_append_right _ hb⟩
    · obtain ⟨b, hb⟩ := ih sorted.tail _ (separate_push separate) later
      exact ⟨b, by rw [ranges]; exact List.mem_append_right _ hb⟩

theorem not_mem_range_of_keep (sorted : Sorted tokens) {pending : Option (κ × κ)}
    (above : ∀ p ∈ pending, ∀ t ∈ tokens, t.isKeep = true → p.2 < t.key) {t : Token κ}
    (mem : t ∈ tokens) (kept : t.isKeep = true) {r : κ × κ} (hr : r ∈ ranges pending tokens) :
    ¬ (r.1 ≤ t.key ∧ t.key ≤ r.2) := by
  induction tokens generalizing pending with
  | nil => cases mem
  | cons head rest ih =>
    -- A removed head is below every kept token that follows.
    have above' : ∀ p ∈ push pending head, ∀ t ∈ rest, t.isKeep = true → p.2 < t.key := by
      intro p hp t ht keep
      have stop : p.2 = head.key ∧ head.isKeep = false := by
        cases head with
        | whole k =>
          cases hp
          exact ⟨rfl, rfl⟩
        | drop k =>
          cases hp
          exact ⟨rfl, rfl⟩
        | keep k => cases hp
      rw [stop.1]
      refine lt_of_le_of_ne (sorted.head_le ht) (fun same => ?_)
      have := sorted.same head List.mem_cons_self t (List.mem_cons_of_mem _ ht) same
      rw [stop.2, keep] at this
      cases this
    rw [ranges, List.mem_append] at hr
    rcases hr with hr | hr
    · cases head with
      | whole k => simp [close] at hr
      | drop k => simp [close] at hr
      | keep k =>
        have below := above r (Option.mem_toList.mp hr) t mem kept
        exact fun inside => absurd inside.2 (not_le.mpr below)
    · rcases List.mem_cons.mp mem with rfl | later
      · -- Every later range starts above the kept head.
        rcases start_of_mem_ranges hr with ⟨b, hb⟩ | ⟨t', mem', removed, start⟩
        · cases t with
          | keep k => cases hb
          | _ => cases kept
        · intro inside
          have same : t.key = t'.key :=
            le_antisymm (sorted.head_le mem') (start ▸ inside.1)
          have := sorted.same t List.mem_cons_self t' (List.mem_cons_of_mem _ mem') same
          rw [kept, removed] at this
          cases this
      · exact ih sorted.tail above' later hr

theorem lost_of_not_separate (sorted : Sorted tokens) (pending : Option (κ × κ))
    (group : tokens.Pairwise (fun t t' => ∀ k, t' = .whole k → t.key < k))
    (above : ∀ p ∈ pending, p.1 ≤ p.2 ∧ (∀ t ∈ tokens, p.2 ≤ t.key) ∧
      ∀ k, .whole k ∈ tokens → p.2 < k)
    (mixed : ¬ Separate pending.isSome tokens) :
    (∃ p ∈ pending, ∀ r ∈ ranges pending tokens, p.1 < r.1) ∨
      ∃ t ∈ tokens, t.isKeep = false ∧
        ∀ r ∈ ranges pending tokens, r.2 < t.key ∨ t.key < r.1 := by
  induction tokens generalizing pending with
  | nil => exact absurd trivial mixed
  | cons head rest ih =>
    obtain ⟨later, group⟩ := List.pairwise_cons.mp group
    -- What holds of the pending range after the head.
    have next : ∀ p ∈ push pending head, p.1 ≤ p.2 ∧ (∀ t ∈ rest, p.2 ≤ t.key) ∧
        ∀ k, .whole k ∈ rest → p.2 < k := by
      intro p hp
      obtain ⟨le, stop⟩ := push_bounds (fun p hp =>
        ⟨(above p hp).1, (above p hp).2.1 head List.mem_cons_self⟩) p hp
      rw [stop]
      exact ⟨stop ▸ le, fun t ht => sorted.head_le ht, fun k hk => later _ hk k rfl⟩
    have after := ih sorted.tail (push pending head) group next
    cases head with
    | whole k =>
      cases pending with
      | some p =>
        refine Or.inl ⟨p, rfl, fun r hr => ?_⟩
        have below := lt_of_le_of_lt (above p rfl).1 ((above p rfl).2.2 k List.mem_cons_self)
        -- The pending range was replaced, so it is not among what is reported.
        have replaced : r ∈ ranges (some (k, k)) rest := hr
        rcases start_of_mem_ranges replaced with ⟨b, hb⟩ | ⟨t, ht, -, key⟩
        · cases hb
          exact below
        · exact lt_of_lt_of_le below (key ▸ sorted.head_le ht)
      | none =>
        have still : ¬ Separate (push none (.whole k)).isSome rest :=
          fun separate => mixed ⟨rfl, separate⟩
        rcases after still with ⟨p, hp, apart⟩ | ⟨t, ht, removed, apart⟩
        · cases hp
          exact Or.inr ⟨.whole k, List.mem_cons_self, rfl, fun r hr => Or.inr (apart r hr)⟩
        · exact Or.inr ⟨t, List.mem_cons_of_mem _ ht, removed, apart⟩
    | drop k =>
      rcases after mixed with ⟨p, hp, apart⟩ | ⟨t, ht, removed, apart⟩
      · cases pending with
        | some q =>
          cases hp
          exact Or.inl ⟨q, rfl, apart⟩
        | none =>
          cases hp
          exact Or.inr ⟨.drop k, List.mem_cons_self, rfl, fun r hr => Or.inr (apart r hr)⟩
      · exact Or.inr ⟨t, List.mem_cons_of_mem _ ht, removed, apart⟩
    | keep k =>
      rcases after mixed with ⟨p, hp, -⟩ | ⟨t, ht, removed, apart⟩
      · cases hp
      · refine Or.inr ⟨t, List.mem_cons_of_mem _ ht, removed, fun r hr => ?_⟩
        rw [ranges, List.mem_append] at hr
        rcases hr with hr | hr
        · -- The closed range ends before the kept key, which is before the removed one.
          have closed := (above r (Option.mem_toList.mp hr)).2.1 (.keep k) List.mem_cons_self
          refine Or.inl (lt_of_le_of_ne (le_trans closed (sorted.head_le ht)) (fun same => ?_))
          have equal : (Token.keep k).key = t.key :=
            le_antisymm (sorted.head_le ht) (same ▸ closed)
          have := sorted.same _ List.mem_cons_self t (List.mem_cons_of_mem _ ht) equal
          rw [removed] at this
          cases this
        · exact apart r hr

end Order

end RangeScan
