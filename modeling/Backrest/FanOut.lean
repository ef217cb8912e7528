import Mathlib.Data.List.Nodup
import Mathlib.Logic.Function.Basic

/-!
# One stream to several places

The same operations are done at several places in turn. A place where one fails
is left out of the later ones; its error is kept and the others go on. When the
places are distinct each ends as if it were alone.
-/

namespace FanOut

variable {κ δ σ ε : Type}

structure Entry (κ δ : Type) where
  key : κ
  live : Bool
  dest : δ

/-- An operation at one place, which may fail with a changed state. -/
abbrev Op (κ δ σ ε : Type) := κ → δ → σ → Except ε δ × σ

/-- An operation at an entry, unless it was left out before. -/
def step (op : Op κ δ σ ε) (entry : Entry κ δ) (s : σ) : Entry κ δ × σ × Option ε :=
  if entry.live = true then
    match op entry.key entry.dest s with
    | (.ok dest, s) => ({ entry with dest := dest }, s, none)
    | (.error e, s) => ({ entry with live := false }, s, some e)
  else (entry, s, none)

/-- The operations one after the other at one place, with the errors. -/
def alone : List (Op κ δ σ ε) → Entry κ δ → σ → Entry κ δ × σ × List ε
  | [], entry, s => (entry, s, [])
  | op :: ops, entry, s =>
    let (entry, s, e) := step op entry s
    let (entry, s, errors) := alone ops entry s
    (entry, s, e.toList ++ errors)

theorem alone_cons (op : Op κ δ σ ε) (ops : List (Op κ δ σ ε)) (entry : Entry κ δ) (s : σ) :
    alone (op :: ops) entry s =
      ((alone ops (step op entry s).1 (step op entry s).2.1).1,
        (alone ops (step op entry s).1 (step op entry s).2.1).2.1,
        (step op entry s).2.2.toList ++ (alone ops (step op entry s).1 (step op entry s).2.1).2.2) :=
  rfl

@[simp]
theorem key_step (op : Op κ δ σ ε) (entry : Entry κ δ) (s : σ) :
    (step op entry s).1.key = entry.key := by
  unfold step
  split
  · split <;> rfl
  · rfl

/-- An entry that was left out stays as it is. -/
theorem alone_of_not_live (ops : List (Op κ δ σ ε)) {entry : Entry κ δ}
    (dead : entry.live = false) (s : σ) : alone ops entry s = (entry, s, []) := by
  induction ops with
  | nil => rfl
  | cons op ops ih =>
    have skip : step op entry s = (entry, s, none) := by
      rw [step, dead, if_neg (by decide)]
    simp only [alone, skip, ih]
    rfl

theorem alone_cons_ok {op : Op κ δ σ ε} {ops : List (Op κ δ σ ε)} {key : κ} {dest dest' : δ}
    {s s' : σ} (ok : op key dest s = (.ok dest', s')) :
    alone (op :: ops) ⟨key, true, dest⟩ s = alone ops ⟨key, true, dest'⟩ s' := by
  simp only [alone, step, if_true, ok]
  rfl

theorem alone_cons_error {op : Op κ δ σ ε} {ops : List (Op κ δ σ ε)} {key : κ} {dest : δ}
    {s s' : σ} {e : ε} (error : op key dest s = (.error e, s')) :
    alone (op :: ops) ⟨key, true, dest⟩ s = (⟨key, false, dest⟩, s', [e]) := by
  simp only [alone, step, if_true, error, alone_of_not_live]
  rfl

section Places
variable [DecidableEq κ]

/-- One operation at every entry. -/
def pass (op : Op κ δ σ ε) : List (Entry κ δ) → (κ → σ) → List (κ × ε) →
    List (Entry κ δ) × (κ → σ) × List (κ × ε)
  | [], st, errors => ([], st, errors)
  | entry :: rest, st, errors =>
    let (entry', s, e) := step op entry (st entry.key)
    let (rest, st, errors) := pass op rest (Function.update st entry.key s)
      (errors ++ (e.map fun e => (entry.key, e)).toList)
    (entry' :: rest, st, errors)

/-- The operations in turn, each at every entry. -/
def passes : List (Op κ δ σ ε) → List (Entry κ δ) → (κ → σ) → List (κ × ε) →
    List (Entry κ δ) × (κ → σ) × List (κ × ε)
  | [], entries, st, errors => (entries, st, errors)
  | op :: ops, entries, st, errors =>
    let (entries, st, errors) := pass op entries st errors
    passes ops entries st errors

theorem pass_cons (op : Op κ δ σ ε) (entry : Entry κ δ) (rest : List (Entry κ δ)) (st : κ → σ)
    (errors : List (κ × ε)) :
    pass op (entry :: rest) st errors =
      ((step op entry (st entry.key)).1 ::
        (pass op rest (Function.update st entry.key (step op entry (st entry.key)).2.1)
          (errors ++ ((step op entry (st entry.key)).2.2.map fun e => (entry.key, e)).toList)).1,
        (pass op rest (Function.update st entry.key (step op entry (st entry.key)).2.1)
          (errors ++ ((step op entry (st entry.key)).2.2.map fun e => (entry.key, e)).toList)).2) :=
  rfl

theorem pass_spec (op : Op κ δ σ ε) : ∀ (entries : List (Entry κ δ)) (st : κ → σ)
    (errors : List (κ × ε)), (entries.map Entry.key).Nodup →
    (pass op entries st errors).1 =
      entries.map (fun entry => (step op entry (st entry.key)).1) ∧
    (∀ entry ∈ entries, (pass op entries st errors).2.1 entry.key =
      (step op entry (st entry.key)).2.1) ∧
    (∀ key, key ∉ entries.map Entry.key → (pass op entries st errors).2.1 key = st key) ∧
    ((pass op entries st errors).2.2 = [] ↔
      errors = [] ∧ ∀ entry ∈ entries, (step op entry (st entry.key)).2.2 = none) := by
  intro entries
  induction entries with
  | nil =>
    intro st errors _
    exact ⟨rfl, by simp, fun _ _ => rfl, by simp [pass]⟩
  | cons entry rest ih =>
    intro st errors nodup
    obtain ⟨notIn, nodup⟩ := List.nodup_cons.mp nodup
    obtain ⟨entries', states, others, noError⟩ := ih
      (Function.update st entry.key (step op entry (st entry.key)).2.1)
      (errors ++ ((step op entry (st entry.key)).2.2.map fun e => (entry.key, e)).toList) nodup
    -- no later entry is at this place
    have same : ∀ other ∈ rest, Function.update st entry.key
        (step op entry (st entry.key)).2.1 other.key = st other.key := by
      intro other mem
      apply Function.update_of_ne
      intro equal
      exact notIn (equal ▸ List.mem_map_of_mem mem)
    rw [pass_cons]
    refine ⟨?_, ?_, ?_, ?_⟩
    · simp only [entries', List.map_cons]
      congr 1
      exact List.map_congr_left (fun other mem => by rw [same other mem])
    · intro other mem
      rcases List.mem_cons.mp mem with rfl | mem
      · exact (others _ notIn).trans (Function.update_self _ _ _)
      · exact (states other mem).trans (by rw [same other mem])
    · intro key notKey
      rw [List.map_cons, List.mem_cons, not_or] at notKey
      exact (others key notKey.2).trans (Function.update_of_ne notKey.1 _ _)
    · simp only
      rw [noError, List.append_eq_nil_iff, List.forall_mem_cons]
      have each : (∀ other ∈ rest, (step op other (Function.update st entry.key
          (step op entry (st entry.key)).2.1 other.key)).2.2 = none) ↔
          ∀ other ∈ rest, (step op other (st other.key)).2.2 = none := by
        constructor
        · intro h other mem
          rw [← same other mem]
          exact h other mem
        · intro h other mem
          rw [same other mem]
          exact h other mem
      rw [each, Option.toList_eq_nil_iff, Option.map_eq_none_iff, and_assoc]

/-- Each place ends as if it were alone. -/
theorem passes_spec : ∀ (ops : List (Op κ δ σ ε)) (entries : List (Entry κ δ)) (st : κ → σ)
    (errors : List (κ × ε)), (entries.map Entry.key).Nodup →
    (∀ entry ∈ entries, (passes ops entries st errors).2.1 entry.key =
      (alone ops entry (st entry.key)).2.1) ∧
    (∀ key, key ∉ entries.map Entry.key → (passes ops entries st errors).2.1 key = st key) ∧
    ((passes ops entries st errors).2.2 = [] ↔
      errors = [] ∧ ∀ entry ∈ entries, (alone ops entry (st entry.key)).2.2 = []) := by
  intro ops
  induction ops with
  | nil =>
    intro entries st errors _
    exact ⟨fun _ _ => rfl, fun _ _ => rfl, by simp [passes, alone]⟩
  | cons op ops ih =>
    intro entries st errors nodup
    obtain ⟨entries', states, others, noError⟩ := pass_spec op entries st errors nodup
    have keys : (pass op entries st errors).1.map Entry.key = entries.map Entry.key := by
      rw [entries', List.map_map]
      exact List.map_congr_left (fun entry _ => key_step op entry _)
    obtain ⟨ihStates, ihOthers, ihErrors⟩ := ih (pass op entries st errors).1
      (pass op entries st errors).2.1 (pass op entries st errors).2.2 (keys ▸ nodup)
    -- the entry that follows one through the first pass
    have next : ∀ entry ∈ entries,
        (step op entry (st entry.key)).1 ∈ (pass op entries st errors).1 := by
      intro entry mem
      rw [entries']
      exact List.mem_map_of_mem mem
    refine ⟨?_, ?_, ?_⟩
    · intro entry mem
      have after := ihStates _ (next entry mem)
      rw [key_step, states entry mem] at after
      exact after
    · intro key notKey
      exact (ihOthers key (keys.symm ▸ notKey)).trans (others key notKey)
    · change (passes ops _ _ _).2.2 = [] ↔ _
      rw [ihErrors, noError, and_assoc]
      apply and_congr_right
      intro _
      rw [entries', List.forall_mem_map]
      constructor
      · rintro ⟨first, later⟩ entry mem
        have after := later entry mem
        rw [key_step, states entry mem] at after
        rw [alone_cons, first entry mem]
        exact after
      · intro all
        have both : ∀ entry ∈ entries, _ := fun entry mem =>
          List.append_eq_nil_iff.mp (all entry mem)
        refine ⟨fun entry mem => Option.toList_eq_nil_iff.mp (both entry mem).1, ?_⟩
        intro entry mem
        rw [key_step, states entry mem]
        exact (both entry mem).2

end Places

end FanOut
