import Mathlib.Data.List.Nodup

/-!
# Lists of records with a key

With distinct keys the first record of a key is the only one: to find it is to be
a member, to change it is a map and to remove it is a filter.
-/

namespace KeyedList

universe u v

variable {α : Type u} {κ : Type v} [DecidableEq κ] {key : α → κ} {as : List α} {k : κ}

def changeFirst (key : α → κ) (k : κ) (change : α → α) : List α → List α
  | [] => []
  | a :: rest => if key a = k then change a :: rest else a :: changeFirst key k change rest

theorem find_iff (distinct : (as.map key).Nodup) {a : α} :
    as.find? (fun a => key a = k) = some a ↔ a ∈ as ∧ key a = k := by
  constructor
  · intro found
    exact ⟨List.mem_of_find?_eq_some found, by simpa using List.find?_some found⟩
  · rintro ⟨member, rfl⟩
    cases found : as.find? (fun b => key b = key a) with
    | none => simpa using List.find?_eq_none.mp found a member
    | some b =>
      have same : key b = key a := by simpa using List.find?_some found
      rw [List.inj_on_of_nodup_map distinct (List.mem_of_find?_eq_some found) member same]

theorem find_none_iff : as.find? (fun a => key a = k) = none ↔ ∀ a ∈ as, key a ≠ k := by
  simp

theorem find_perm {bs : List α} (perm : bs.Perm as) (distinct : (as.map key).Nodup) :
    bs.find? (fun a => key a = k) = as.find? (fun a => key a = k) := by
  apply Option.ext
  intro a
  rw [find_iff distinct, find_iff ((perm.map key).nodup_iff.mpr distinct), perm.mem_iff]

theorem changeFirst_eq_map (distinct : (as.map key).Nodup) {change : α → α} :
    changeFirst key k change as = as.map (fun a => if key a = k then change a else a) := by
  induction as with
  | nil => rfl
  | cons a rest ih =>
    obtain ⟨fresh, distinct_rest⟩ := List.nodup_cons.mp distinct
    rw [changeFirst, List.map_cons]
    by_cases h : key a = k
    · have others : ∀ b ∈ rest, key b ≠ k := by
        intro b hb same
        exact fresh (List.mem_map.mpr ⟨b, hb, same.trans h.symm⟩)
      have unchanged : rest.map (fun a => if key a = k then change a else a) = rest := by
        refine (List.map_congr_left fun b hb => ?_).trans (List.map_id' rest)
        exact if_neg (others b hb)
      rw [if_pos h, if_pos h, unchanged]
    · rw [if_neg h, if_neg h, ih distinct_rest]

/-- The record of a key is changed where it stands. -/
theorem changeFirst_append {change : α → α} {front rest : List α} {a : α}
    (fresh : ∀ b ∈ front, key b ≠ key a) :
    changeFirst key (key a) change (front ++ a :: rest) = front ++ change a :: rest := by
  induction front with
  | nil => rw [List.nil_append, changeFirst, if_pos rfl, List.nil_append]
  | cons b front ih =>
    obtain ⟨hb, hfront⟩ := List.forall_mem_cons.mp fresh
    rw [List.cons_append, changeFirst, if_neg hb, ih hfront, List.cons_append]

theorem eraseFirst_append {front rest : List α} {a : α} (fresh : ∀ b ∈ front, key b ≠ key a) :
    (front ++ a :: rest).eraseP (fun b => key b = key a) = front ++ rest := by
  rw [List.eraseP_append_right _ (fun b hb => by simp [fresh b hb]),
    List.eraseP_cons_of_pos (by simp)]

theorem eraseFirst_eq_filter (distinct : (as.map key).Nodup) :
    as.eraseP (fun a => key a = k) = as.filter (fun a => key a ≠ k) := by
  induction as with
  | nil => rfl
  | cons a rest ih =>
    obtain ⟨fresh, distinct_rest⟩ := List.nodup_cons.mp distinct
    by_cases h : key a = k
    · have others : ∀ b ∈ rest, key b ≠ k := by
        intro b hb same
        exact fresh (List.mem_map.mpr ⟨b, hb, same.trans h.symm⟩)
      rw [List.eraseP_cons_of_pos (by simp [h]), List.filter_cons_of_neg (by simp [h])]
      exact (List.filter_eq_self.mpr fun b hb => by simp [others b hb]).symm
    · rw [List.eraseP_cons_of_neg (by simp [h]), List.filter_cons_of_pos (by simp [h]),
        ih distinct_rest]

end KeyedList
