import Mathlib.Data.List.Basic

/-!
# Regular expressions

A text matches an expression when the rules of `Matches` derive it.
`regExpMatch` decides this one character at a time: `after a e` matches the rests
of the texts of `e` that begin with `a`.
-/

namespace RegExp

universe u

inductive Exp (α : Type u) where
  | never
  | empty
  | one (holds : α → Bool)
  | seq (first next : Exp α)
  | either (left right : Exp α)
  | many (inner : Exp α)

variable {α : Type u}

inductive Matches : Exp α → List α → Prop where
  | empty : Matches .empty []
  | one {holds : α → Bool} {a : α} (h : holds a = true) : Matches (.one holds) [a]
  | seq {first next : Exp α} {s t : List α} (hs : Matches first s) (ht : Matches next t) :
      Matches (.seq first next) (s ++ t)
  | left {left right : Exp α} {s : List α} (h : Matches left s) : Matches (.either left right) s
  | right {left right : Exp α} {s : List α} (h : Matches right s) :
      Matches (.either left right) s
  | none {inner : Exp α} : Matches (.many inner) []
  | more {inner : Exp α} {s t : List α} (hs : Matches inner s) (ht : Matches (.many inner) t) :
      Matches (.many inner) (s ++ t)

/-- `inner{0,1}` -/
def Exp.optional (inner : Exp α) : Exp α := .either inner .empty

/-- `inner+` -/
def Exp.atLeastOne (inner : Exp α) : Exp α := .seq inner (.many inner)

/-- One character after the other. -/
def Exp.each (one : α → Exp α) : List α → Exp α
  | [] => .empty
  | a :: rest => .seq (one a) (Exp.each one rest)

def matchesEmpty : Exp α → Bool
  | .never => false
  | .empty => true
  | .one _ => false
  | .seq first next => matchesEmpty first && matchesEmpty next
  | .either left right => matchesEmpty left || matchesEmpty right
  | .many _ => true

def after (a : α) : Exp α → Exp α
  | .never => .never
  | .empty => .never
  | .one holds => if holds a then .empty else .never
  | .seq first next =>
    if matchesEmpty first then .either (.seq (after a first) next) (after a next)
    else .seq (after a first) next
  | .either left right => .either (after a left) (after a right)
  | .many inner => .seq (after a inner) (.many inner)

/-- Does the whole text match? -/
def regExpMatch (e : Exp α) (s : List α) : Bool := matchesEmpty (s.foldl (fun e a => after a e) e)

variable {s : List α} {e : Exp α}

theorem matches_empty : Matches (.empty : Exp α) s ↔ s = [] := by
  constructor
  · intro h
    cases h
    rfl
  · rintro rfl
    exact .empty

theorem matches_one {holds : α → Bool} :
    Matches (.one holds) s ↔ ∃ a, holds a = true ∧ s = [a] := by
  constructor
  · rintro (_ | h)
    exact ⟨_, h, rfl⟩
  · rintro ⟨a, h, rfl⟩
    exact .one h

theorem matches_seq {first next : Exp α} {s : List α} :
    Matches (.seq first next) s ↔ ∃ t r, Matches first t ∧ Matches next r ∧ s = t ++ r := by
  constructor
  · intro h
    cases h with
    | seq ht hr => exact ⟨_, _, ht, hr, rfl⟩
  · rintro ⟨t, r, ht, hr, rfl⟩
    exact .seq ht hr

theorem matches_either {left right : Exp α} :
    Matches (.either left right) s ↔ Matches left s ∨ Matches right s := by
  constructor
  · intro h
    cases h with
    | left h => exact Or.inl h
    | right h => exact Or.inr h
  · rintro (h | h)
    · exact .left h
    · exact .right h

theorem not_matches_never : ¬ Matches (.never : Exp α) s := nofun

theorem matchesEmpty_iff : matchesEmpty e = true ↔ Matches e [] := by
  induction e with
  | never => exact ⟨nofun, fun h => absurd h not_matches_never⟩
  | empty => exact ⟨fun _ => .empty, fun _ => rfl⟩
  | one holds =>
    constructor
    · exact nofun
    · intro h
      obtain ⟨a, -, same⟩ := matches_one.mp h
      cases same
  | seq first next ihFirst ihNext =>
    rw [matchesEmpty, Bool.and_eq_true, ihFirst, ihNext]
    constructor
    · rintro ⟨hs, ht⟩
      exact .seq hs ht
    · intro h
      obtain ⟨t, r, ht, hr, same⟩ := matches_seq.mp h
      obtain ⟨rfl, rfl⟩ := List.append_eq_nil_iff.mp same.symm
      exact ⟨ht, hr⟩
  | either left right ihLeft ihRight =>
    rw [matchesEmpty, Bool.or_eq_true, ihLeft, ihRight, matches_either]
  | many inner _ => exact ⟨fun _ => .none, fun _ => rfl⟩

/-- A text of `inner*` that is not empty begins with a text of `inner` that is not. -/
theorem matches_many_cons {inner : Exp α} {a : α} :
    Matches (.many inner) (a :: s) ↔
      ∃ t r, Matches inner (a :: t) ∧ Matches (.many inner) r ∧ s = t ++ r := by
  constructor
  · generalize expression : Exp.many inner = e
    generalize text : a :: s = w
    intro h
    induction h with
    | @more _ start rest hs ht _ ih =>
      cases expression
      cases start with
      | nil => exact ih rfl text
      | cons b start =>
        obtain ⟨rfl, rfl⟩ := List.cons.inj text
        exact ⟨start, rest, hs, ht, rfl⟩
    | none => cases text
    | empty | one | seq | left | right => cases expression
  · rintro ⟨t, r, ht, hr, rfl⟩
    exact .more ht hr

theorem after_iff {a : α} : Matches (after a e) s ↔ Matches e (a :: s) := by
  induction e generalizing s with
  | never => exact ⟨nofun, nofun⟩
  | empty => exact ⟨nofun, nofun⟩
  | one holds =>
    rw [after, matches_one]
    by_cases h : holds a = true
    · rw [if_pos h, matches_empty]
      constructor
      · rintro rfl
        exact ⟨a, h, rfl⟩
      · rintro ⟨b, -, same⟩
        exact (List.cons.inj same).2
    · rw [if_neg h]
      constructor
      · exact nofun
      · rintro ⟨b, hb, same⟩
        exact absurd ((List.cons.inj same).1 ▸ hb) h
  | seq first next ihFirst ihNext =>
    have split : Matches (.seq first next) (a :: s) ↔
        Matches (.seq (after a first) next) s ∨ (Matches first [] ∧ Matches (after a next) s) := by
      rw [matches_seq, matches_seq]
      constructor
      · rintro ⟨t, r, ht, hr, same⟩
        cases t with
        | nil => exact Or.inr ⟨ht, ihNext.mpr (same ▸ hr)⟩
        | cons b t =>
          obtain ⟨rfl, rfl⟩ := List.cons.inj same
          exact Or.inl ⟨t, r, ihFirst.mpr ht, hr, rfl⟩
      · rintro (⟨t, r, ht, hr, rfl⟩ | ⟨hempty, h⟩)
        · exact ⟨a :: t, r, ihFirst.mp ht, hr, rfl⟩
        · exact ⟨[], a :: s, hempty, ihNext.mp h, rfl⟩
    rw [split, after]
    by_cases h : matchesEmpty first = true
    · rw [if_pos h, matches_either, and_iff_right (matchesEmpty_iff.mp h)]
    · rw [if_neg h]
      constructor
      · exact Or.inl
      · rintro (hs | ⟨hempty, -⟩)
        · exact hs
        · exact absurd (matchesEmpty_iff.mpr hempty) h
  | either left right ihLeft ihRight =>
    rw [after, matches_either, matches_either, ihLeft, ihRight]
  | many inner ih =>
    rw [after, matches_many_cons, matches_seq]
    constructor
    · rintro ⟨t, r, ht, hr, same⟩
      exact ⟨t, r, ih.mp ht, hr, same⟩
    · rintro ⟨t, r, ht, hr, same⟩
      exact ⟨t, r, ih.mpr ht, hr, same⟩

theorem regExpMatch_iff : regExpMatch e s = true ↔ Matches e s := by
  unfold regExpMatch
  induction s generalizing e with
  | nil => exact matchesEmpty_iff
  | cons a s ih => exact ih.trans after_iff

/-- Every character that the expression names satisfies `P`. -/
def Exp.Within (P : α → Prop) : Exp α → Prop
  | .never => True
  | .empty => True
  | .one holds => ∀ a, holds a = true → P a
  | .seq first next => first.Within P ∧ next.Within P
  | .either left right => left.Within P ∧ right.Within P
  | .many inner => inner.Within P

theorem Matches.within {P : α → Prop} (h : Matches e s) (within : e.Within P) : ∀ a ∈ s, P a := by
  induction h with
  | empty | none => exact nofun
  | one h =>
    rintro b hb
    cases List.mem_singleton.mp hb
    exact within _ h
  | seq _ _ ihs iht =>
    intro a ha
    rcases List.mem_append.mp ha with ha | ha
    · exact ihs within.1 a ha
    · exact iht within.2 a ha
  | left _ ih => exact ih within.1
  | right _ ih => exact ih within.2
  | more _ _ ihs iht =>
    intro a ha
    rcases List.mem_append.mp ha with ha | ha
    · exact ihs within a ha
    · exact iht within a ha

end RegExp
