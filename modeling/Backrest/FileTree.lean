import Mathlib.Data.List.Dedup

/-!
# File trees

A tree is a finite list of entries, each a path from the root with a directory
or a file there. Removal of a path that is not in the tree does nothing. The
lemmas say what each change does to one lookup, so that a proof about a run of
changes never opens the list of entries.
-/

namespace FileTree

universe u v

/-- What stands at a path. -/
inductive Node (γ : Type v) where
  | dir
  | file (content : γ)

structure Tree (ν : Type u) (γ : Type v) where
  entries : List (List ν × Node γ)

variable {ν : Type u} {γ : Type v} [DecidableEq ν]

namespace Tree

def node (t : Tree ν γ) (p : List ν) : Option (Node γ) := t.entries.lookup p

def read (t : Tree ν γ) (p : List ν) : Option γ :=
  match t.node p with
  | some (.file content) => some content
  | _ => none

/-- The names directly below a path, each once. -/
def children (t : Tree ν γ) (p : List ν) : List ν :=
  (t.entries.filterMap (fun e => if e.1.dropLast = p then e.1.getLast? else none)).dedup

def remove (t : Tree ν γ) (p : List ν) : Tree ν γ :=
  ⟨t.entries.filter (fun e => e.1 ≠ p)⟩

/-- Remove a path with everything below it. -/
def removeTree (t : Tree ν γ) (p : List ν) : Tree ν γ :=
  ⟨t.entries.filter (fun e => ¬ p <+: e.1)⟩

/-- Create a directory unless something is there already. -/
def mkdir (t : Tree ν γ) (p : List ν) : Tree ν γ :=
  if (t.node p).isSome then t else ⟨(p, .dir) :: t.entries⟩

def put (t : Tree ν γ) (p : List ν) (content : γ) : Tree ν γ :=
  ⟨(p, .file content) :: (t.remove p).entries⟩

end Tree

theorem lookup_filter (keep : List ν → Bool) (entries : List (List ν × Node γ)) (p : List ν) :
    (entries.filter (fun e => keep e.1)).lookup p =
      if keep p then entries.lookup p else none := by
  induction entries with
  | nil => simp
  | cons e rest ih =>
    rcases e with ⟨q, n⟩
    by_cases hq : p = q
    · subst hq
      cases hk : keep p <;> simp [hk, ih]
    · have hb : (p == q) = false := beq_eq_false_iff_ne.mpr hq
      cases hk : keep q <;> simp [hk, List.lookup_cons, hb, ih]

theorem lookup_isSome {entries : List (List ν × Node γ)} {p : List ν} :
    (entries.lookup p).isSome ↔ ∃ e ∈ entries, e.1 = p := by
  induction entries with
  | nil => simp
  | cons e rest ih =>
    rcases e with ⟨q, n⟩
    by_cases hq : p = q
    · subst hq
      simp
    · have hb : (p == q) = false := beq_eq_false_iff_ne.mpr hq
      simp [List.lookup_cons, hb, ih, Ne.symm hq]

theorem mem_of_lookup {entries : List (List ν × Node γ)} {p : List ν} {n : Node γ}
    (h : entries.lookup p = some n) : (p, n) ∈ entries := by
  obtain ⟨before, after, rfl, -⟩ := List.lookup_eq_some_iff.mp h
  simp

theorem mem_of_read {t : Tree ν γ} {p : List ν} {content : γ} (h : t.read p = some content) :
    (p, .file content) ∈ t.entries := by
  rw [Tree.read] at h
  split at h
  · cases h
    exact mem_of_lookup ‹_›
  · cases h

variable {t : Tree ν γ} {p q : List ν}

theorem node_remove : (t.remove q).node p = if p = q then none else t.node p := by
  rw [Tree.node, Tree.remove, lookup_filter (fun k => decide (k ≠ q))]
  by_cases h : p = q <;> simp [h, Tree.node]

theorem node_removeTree :
    (t.removeTree q).node p = if q <+: p then none else t.node p := by
  rw [Tree.node, Tree.removeTree, lookup_filter (fun k => decide (¬ q <+: k))]
  by_cases h : q <+: p <;> simp [h, Tree.node]

theorem node_put {c : γ} : (t.put q c).node p = if p = q then some (.file c) else t.node p := by
  by_cases h : p = q
  · subst h
    simp [Tree.node, Tree.put]
  · have hb : (p == q) = false := beq_eq_false_iff_ne.mpr h
    have hr := node_remove (t := t) (p := p) (q := q)
    rw [if_neg h] at hr ⊢
    rw [← hr]
    simp [Tree.node, Tree.put, List.lookup_cons, hb]

theorem node_mkdir :
    (t.mkdir q).node p = if p = q ∧ t.node q = none then some .dir else t.node p := by
  rw [Tree.mkdir]
  split
  · rename_i there
    rw [if_neg]
    rintro ⟨-, missing⟩
    rw [missing] at there
    cases there
  · rename_i absent
    have missing : t.node q = none := by simpa using absent
    by_cases h : p = q
    · subst h
      rw [if_pos ⟨rfl, missing⟩]
      simp [Tree.node]
    · have hb : (p == q) = false := beq_eq_false_iff_ne.mpr h
      rw [if_neg (fun both => h both.1)]
      simp [Tree.node, List.lookup_cons, hb]

/-- Removing a path with nothing below it removes all that is there. -/
theorem node_remove_of_empty (empty : ∀ name rest, t.node (p ++ name :: rest) = none)
    (q : List ν) : (t.remove p).node q = if p <+: q then none else t.node q := by
  rw [node_remove]
  by_cases below : p <+: q
  · obtain ⟨rest, rfl⟩ := below
    rw [if_pos (List.prefix_append _ _)]
    cases rest with
    | nil => simp
    | cons name rest =>
      rw [if_neg (by simp)]
      exact empty name rest
  · rw [if_neg below, if_neg]
    rintro rfl
    exact below List.prefix_rfl

theorem node_remove_of_ne (h : p ≠ q) : (t.remove q).node p = t.node p := by
  rw [node_remove, if_neg h]

theorem node_removeTree_of_not_prefix (h : ¬ q <+: p) : (t.removeTree q).node p = t.node p := by
  rw [node_removeTree, if_neg h]

theorem read_congr {t' : Tree ν γ} (h : t.node p = t'.node p) : t.read p = t'.read p := by
  rw [Tree.read, Tree.read, h]

theorem read_remove_of_ne (h : p ≠ q) : (t.remove q).read p = t.read p :=
  read_congr (node_remove_of_ne h)

theorem read_put_of_ne {c : γ} (h : p ≠ q) : (t.put q c).read p = t.read p :=
  read_congr (by rw [node_put, if_neg h])

@[simp]
theorem read_put_self {c : γ} : (t.put p c).read p = some c := by
  rw [Tree.read, node_put, if_pos rfl]

/-- A name is listed below a path exactly when an entry stands there. -/
theorem mem_children {n : ν} : n ∈ t.children p ↔ (t.node (p ++ [n])).isSome := by
  rw [Tree.node, lookup_isSome, Tree.children, List.mem_dedup, List.mem_filterMap]
  constructor
  · rintro ⟨e, he, hn⟩
    split at hn
    · rename_i hp
      refine ⟨e, he, ?_⟩
      have hne : e.1 ≠ [] := by
        intro hnil
        rw [hnil] at hn
        cases hn
      rw [List.getLast?_eq_getLast_of_ne_nil hne] at hn
      rw [← hp, ← Option.some.inj hn, List.dropLast_append_getLast hne]
    · cases hn
  · rintro ⟨e, he, hp⟩
    exact ⟨e, he, by rw [hp]; simp⟩

theorem children_nodup : (t.children p).Nodup := List.nodup_dedup _

end FileTree
