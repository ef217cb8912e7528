import Mathlib.Data.List.Basic
import Mathlib.Logic.Relation

/-!
# Dependents of an item by one forward pass

Each item names at most one parent by key. A single pass over the list, adding
the key of every item whose parent has been seen, finds all dependents of the
starting key as soon as no item stands before its own parent.
-/

namespace ForwardClosure

universe u v
variable {α : Type u} {κ : Type v} [DecidableEq κ]

/-- The pass itself: `seen` is the list of keys found so far. -/
def collect (key : α → κ) (parent : α → Option κ) (seen : List κ) : List α → List κ
  | [] => seen
  | a :: rest =>
    if ∃ p ∈ parent a, p ∈ seen then collect key parent (seen ++ [key a]) rest
    else collect key parent seen rest

/-- No item stands before its own parent, or is its own parent. -/
def ParentsFirst (key : α → κ) (parent : α → Option κ) : List α → Prop
  | [] => True
  | a :: rest => (∀ b ∈ a :: rest, parent a ≠ some (key b)) ∧ ParentsFirst key parent rest

variable {key : α → κ} {parent : α → Option κ}

variable {seen : List κ} {items : List α} {k : κ}

theorem mem_collect_of_mem (h : k ∈ seen) (items : List α) :
    k ∈ collect key parent seen items := by
  induction items generalizing seen with
  | nil => exact h
  | cons a rest ih =>
    rw [collect]
    split
    · exact ih (List.mem_append_left _ h)
    · exact ih h

/-- Every key found was there at the start or belongs to an item of the list. -/
theorem mem_collect_origin (h : k ∈ collect key parent seen items) :
    k ∈ seen ∨ ∃ a ∈ items, key a = k := by
  induction items generalizing seen with
  | nil => exact Or.inl h
  | cons a rest ih =>
    rw [collect] at h
    split at h
    · rcases ih h with old | ⟨b, hb, hk⟩
      · rcases List.mem_append.mp old with old | new
        · exact Or.inl old
        · exact Or.inr ⟨a, List.mem_cons_self, (List.mem_singleton.mp new).symm⟩
      · exact Or.inr ⟨b, List.mem_cons_of_mem a hb, hk⟩
    · rcases ih h with old | ⟨b, hb, hk⟩
      · exact Or.inl old
      · exact Or.inr ⟨b, List.mem_cons_of_mem a hb, hk⟩

theorem collect_closed (order : ParentsFirst key parent items) {a : α} (ha : a ∈ items) {p : κ}
    (hp : parent a = some p) (found : p ∈ collect key parent seen items) :
    key a ∈ collect key parent seen items := by
  induction items generalizing seen with
  | nil => cases ha
  | cons b rest ih =>
    obtain ⟨headOrder, tailOrder⟩ := order
    rw [collect] at found ⊢
    rcases List.mem_cons.mp ha with rfl | ha
    · -- The parent was already seen, since no later item carries its key.
      have seenParent : p ∈ seen := by
        split at found
        · rename_i h
          obtain ⟨q, hq, hs⟩ := h
          have : q = p := Option.some.inj (hq.symm.trans hp)
          exact this ▸ hs
        · rcases mem_collect_origin found with old | ⟨c, hc, hk⟩
          · exact old
          · exact absurd (hk ▸ hp) (headOrder c (List.mem_cons_of_mem _ hc))
      rw [if_pos ⟨p, hp, seenParent⟩]
      exact mem_collect_of_mem (List.mem_append_right _ (List.mem_singleton_self _)) rest
    · by_cases hb : ∃ q ∈ parent b, q ∈ seen
      · rw [if_pos hb] at found ⊢
        exact ih tailOrder ha found
      · rw [if_neg hb] at found ⊢
        exact ih tailOrder ha found

/-- An item kept out of the pass keeps its parent out of it too. -/
theorem parent_not_mem_collect (order : ParentsFirst key parent items) {a : α} (ha : a ∈ items)
    {p : κ} (hp : parent a = some p) (kept : key a ∉ collect key parent seen items) :
    p ∉ collect key parent seen items :=
  fun found => kept (collect_closed order ha hp found)

/-- `x` is the parent of the key `y`. -/
def ParentOf (key : α → κ) (parent : α → Option κ) (items : List α) (x y : κ) : Prop :=
  ∃ a ∈ items, key a = y ∧ parent a = some x

/-- `x` is `y` or an ancestor of it. -/
def DependsOn (key : α → κ) (parent : α → Option κ) (items : List α) (x y : κ) : Prop :=
  Relation.ReflTransGen (ParentOf key parent items) x y

/-- What holds at the start and passes from parents to children holds of all that is found. -/
theorem collect_induction {P : κ → Prop} (start : ∀ k ∈ seen, P k)
    (step : ∀ x y, P x → ParentOf key parent items x y → P y) :
    ∀ k ∈ collect key parent seen items, P k := by
  have walk : ∀ (rest : List α) (seen : List κ), (∀ a ∈ rest, a ∈ items) → (∀ k ∈ seen, P k) →
      ∀ k ∈ collect key parent seen rest, P k := by
    intro rest
    induction rest with
    | nil => exact fun seen _ start => start
    | cons a rest ih =>
      intro seen sub start
      have later : ∀ b ∈ rest, b ∈ items := fun b hb => sub b (List.mem_cons_of_mem a hb)
      rw [collect]
      split
      · rename_i found
        obtain ⟨p, hp, inSeen⟩ := found
        refine ih _ later (fun k hk => ?_)
        rcases List.mem_append.mp hk with old | new
        · exact start k old
        · rw [List.mem_singleton.mp new]
          exact step p (key a) (start p inSeen) ⟨a, sub a List.mem_cons_self, rfl, hp⟩
      · exact ih _ later start
  exact walk items seen (fun _ h => h) start

/-- The pass finds exactly the starting key and what depends on it. -/
theorem mem_collect_iff (order : ParentsFirst key parent items) {c : κ} :
    c ∈ collect key parent [k] items ↔ DependsOn key parent items k c := by
  constructor
  · intro found
    refine collect_induction (fun x hx => ?_) (fun x y before edge => before.tail edge) c found
    rw [List.mem_singleton.mp hx]
    exact Relation.ReflTransGen.refl
  · intro depends
    induction depends with
    | refl => exact mem_collect_of_mem (List.mem_singleton_self k) items
    | tail _ edge ih =>
      obtain ⟨a, ha, rfl, hp⟩ := edge
      exact collect_closed order ha hp ih

end ForwardClosure
