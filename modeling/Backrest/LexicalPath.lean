import Mathlib.Data.List.Basic

/-!
# Lexical resolution of paths

The parts of a path are walked from a directory, of which the names are kept with the
innermost first: a name goes down, a part that goes up removes the name that is innermost.
Nothing is asked of a file system.

A walk goes above its start when at some point it has gone up more often than down. The same
notion says which names are left: those from which the rest of the walk does not go above.
-/

namespace LexicalPath

universe u

inductive PathPart (Name : Type u) where
  | here
  | up
  | name (a : Name)

section Resolve

variable {Name : Type u}

/-- Walk the parts; `none` when the walk goes above the first directory. -/
def resolve : List Name → List (PathPart Name) → Option (List Name)
  | place, [] => some place
  | place, .here :: rest => resolve place rest
  | [], .up :: _ => none
  | _ :: place, .up :: rest => resolve place rest
  | place, .name a :: rest => resolve (a :: place) rest

def PathPart.isUp : PathPart Name → Bool
  | .up => true
  | _ => false

def PathPart.isName : PathPart Name → Bool
  | .name _ => true
  | _ => false

/-- Started below `depth` directories, the walk goes above the first of them. -/
def Above (depth : Nat) (parts : List (PathPart Name)) : Prop :=
  ∃ front, front <+: parts ∧ depth + front.countP PathPart.isName < front.countP PathPart.isUp

/-- The name is reached and not gone above later. -/
def Left (parts : List (PathPart Name)) (a : Name) : Prop :=
  ∃ front back, parts = front ++ .name a :: back ∧ ¬ Above 0 back

variable {rest parts : List (PathPart Name)} {depth : Nat} {a : Name} {place : List Name}

theorem not_above_nil : ¬ Above depth ([] : List (PathPart Name)) := by
  rintro ⟨front, isPrefix, more⟩
  rw [List.prefix_nil.mp isPrefix] at more
  simp at more

/-- The first part changes the depth for the rest, unless it goes above by itself. -/
theorem above_cons {x : PathPart Name} :
    Above depth (x :: rest) ↔ ∃ front, front <+: rest ∧
      depth + (x :: front).countP PathPart.isName < (x :: front).countP PathPart.isUp := by
  constructor
  · rintro ⟨front, isPrefix, more⟩
    rcases List.prefix_cons_iff.mp isPrefix with rfl | ⟨later, rfl, inside⟩
    · simp at more
    · exact ⟨later, inside, more⟩
  · rintro ⟨later, inside, more⟩
    exact ⟨x :: later, List.cons_prefix_cons.mpr ⟨rfl, inside⟩, more⟩

@[simp]
theorem above_here :
    Above depth (.here :: rest) ↔ Above depth rest := by
  rw [above_cons]
  apply exists_congr
  intro front
  simp [PathPart.isName, PathPart.isUp]

@[simp]
theorem above_name :
    Above depth (.name a :: rest) ↔ Above (depth + 1) rest := by
  rw [above_cons]
  apply exists_congr
  intro front
  apply and_congr_right
  intro _
  simp only [List.countP_cons, PathPart.isName, PathPart.isUp, if_true, Bool.false_eq_true, if_false]
  omega

@[simp]
theorem above_up_succ :
    Above (depth + 1) (.up :: rest) ↔ Above depth rest := by
  rw [above_cons]
  apply exists_congr
  intro front
  apply and_congr_right
  intro _
  simp only [List.countP_cons, PathPart.isName, PathPart.isUp, if_true, Bool.false_eq_true, if_false]
  omega

@[simp]
theorem above_up_zero : Above 0 (.up :: rest) :=
  above_cons.mpr ⟨[], List.nil_prefix, by simp [List.countP_cons, PathPart.isName, PathPart.isUp]⟩

theorem resolve_eq_none_iff :
    resolve place parts = none ↔ Above place.length parts := by
  induction parts generalizing place with
  | nil => simp [resolve, not_above_nil]
  | cons x rest ih =>
    cases x with
    | here => simp [resolve, ih]
    | name a => simp [resolve, ih]
    | up =>
      cases place with
      | nil => simp [resolve]
      | cons b place => simp [resolve, ih]

theorem left_cons {x : PathPart Name} :
    Left (x :: rest) a ↔ (x = .name a ∧ ¬ Above 0 rest) ∨ Left rest a := by
  constructor
  · rintro ⟨front, back, split, stays⟩
    cases front with
    | nil =>
      obtain ⟨rfl, rfl⟩ := List.cons.inj split
      exact Or.inl ⟨rfl, stays⟩
    | cons y front =>
      obtain ⟨rfl, rfl⟩ := List.cons.inj split
      exact Or.inr ⟨front, back, rfl, stays⟩
  · rintro (⟨rfl, stays⟩ | ⟨front, back, rfl, stays⟩)
    · exact ⟨[], rest, rfl, stays⟩
    · exact ⟨x :: front, back, rfl, stays⟩

/-- The names of the result: those of the start that the walk does not go above, and those
that the walk leaves behind. -/
theorem mem_resolve {after : List Name} (result : resolve place parts = some after) :
    a ∈ after ↔ (∃ k, place[k]? = some a ∧ ¬ Above k parts) ∨ Left parts a := by
  induction parts generalizing place with
  | nil =>
    cases result
    have none : ¬ Left ([] : List (PathPart Name)) a := by
      rintro ⟨front, back, split, -⟩
      simp at split
    simp [not_above_nil, none, List.mem_iff_getElem?]
  | cons x rest ih =>
    cases x with
    | here =>
      rw [ih result, left_cons]
      simp
    | name b =>
      rw [ih result, left_cons]
      constructor
      · rintro (⟨k, found, stays⟩ | left)
        · cases k with
          | zero =>
            have same : b = a := by simpa using found
            exact Or.inr (Or.inl ⟨congrArg PathPart.name same, stays⟩)
          | succ k => exact Or.inl ⟨k, by simpa using found, by rwa [above_name]⟩
        · exact Or.inr (Or.inr left)
      · rintro (⟨k, found, stays⟩ | ⟨same, stays⟩ | left)
        · exact Or.inl ⟨k + 1, by simpa using found, by rwa [above_name] at stays⟩
        · cases same
          exact Or.inl ⟨0, rfl, stays⟩
        · exact Or.inr left
    | up =>
      cases place with
      | nil => cases result
      | cons b place =>
        rw [ih result, left_cons]
        constructor
        · rintro (⟨k, found, stays⟩ | left)
          · exact Or.inl ⟨k + 1, by simpa using found, by rwa [above_up_succ]⟩
          · exact Or.inr (Or.inr left)
        · rintro (⟨k, found, stays⟩ | ⟨same, -⟩ | left)
          · cases k with
            | zero => exact absurd above_up_zero stays
            | succ k => exact Or.inl ⟨k, by simpa using found, by rwa [above_up_succ] at stays⟩
          · cases same
          · exact Or.inr left

/-- To walk names is to go down to them. -/
theorem resolve_names {names : List Name} :
    resolve place (names.map .name ++ parts) = resolve (names.reverse ++ place) parts := by
  induction names generalizing place with
  | nil => rfl
  | cons a names ih =>
    rw [List.map_cons, List.cons_append, resolve, ih, List.reverse_cons, List.append_assoc]
    rfl

end Resolve

end LexicalPath
