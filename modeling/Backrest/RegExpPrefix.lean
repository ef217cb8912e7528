import Backrest.ExtendedRegExp
import Backrest.Text

/-!
# The prefix of a regular expression

A listing is limited to the prefix that all names have which match an expression. The
prefix is taken from the characters after a begin anchor up to the first one that could be
special. It is relied on when the expression has one branch that can match, and the last
character of the prefix is not left out by a duplication.
-/

namespace RegExpPrefix

open Text ExtendedRegExp

def endsPrefix (c : Char) : Bool :=
  ['.', '^', '$', '*', '+', '-', '?', '(', '[', '\x7b', ' ', '|', '\\'].contains c

/-- `hasStart` is the search of the rest of the string for another begin anchor. -/
def regExpPrefix (expression : Option Str) : Option Str :=
  match expression with
  | some ('^' :: rest) =>
    let result := rest.takeWhile fun c => !endsPrefix c
    -- Will there be any characters in the prefix?
    if result = [] then none
    else if hasStart (result.getLastD '^') (rest.drop result.length) then none
    else some result
  | _ => none

/-! ## The condition -/

def literal : Ere .piece → Option Char
  | .char c _ => if endsPrefix c then none else some c
  | .repeated inner _ => literal inner
  | _ => none

/-- The piece is a character without a duplication. -/
def isPlain : Ere .piece → Bool
  | .char _ _ => true
  | _ => false

/-- The duplications of a piece allow none of it. -/
def isOptional : Ere .piece → Bool
  | .repeated inner dup => dup.low = 0 || isOptional inner
  | _ => false

section Condition

variable (bracket : Str → Str → Prop)

/-- The last character of the prefix is not left out, or what follows can only match where the
text goes on with it. -/
def BranchReliable : Str → Ere .branch → Prop
  | _, .single first => literal first = none ∨ isOptional first = false
  | before, .seq first next =>
    match literal first with
    | none => True
    | some c =>
      if isPlain first then BranchReliable (before ++ [c]) next
      else isOptional first = true → ∀ text after, next.Matches bracket before text after →
        (text ++ after).head? = some c

def Reliable : Ere .alternatives → Prop
  | .one (.seq .start next) => BranchReliable bracket [] next
  | .alt (.seq .start next) others =>
    BranchReliable bracket [] next ∧ ∀ s, ¬ others.MatchesIn bracket s
  | _ => True

end Condition

section Piece

variable {bracket : Str → Str → Prop} {c : Char}

theorem dup_endsPrefix (dup : Dup) : ∃ d rest, dup.text = d :: rest ∧ endsPrefix d = true := by
  cases dup with
  | star | plus | question => exact ⟨_, _, rfl, by decide⟩
  | exactly | atLeast | between => exact ⟨_, _, rfl, by decide⟩

theorem isPlain_repeated (inner : Ere .piece) (dup : Dup) :
    isPlain (.repeated inner dup) = false := rfl

theorem takeWhile_piece (first : Ere .piece) (rest : Str) :
    (first.text ++ rest).takeWhile (fun c => !endsPrefix c) =
      match literal first with
      | none => []
      | some c => if isPlain first then c :: rest.takeWhile (fun c => !endsPrefix c) else [c] := by
  match first with
  | .char c ordinary =>
    rw [Ere.text, literal, isPlain, List.singleton_append, List.takeWhile_cons]
    cases endsPrefix c <;> rfl
  | .quoted _ | .any | .bracket _ | .start | .stop | .group _ =>
    simp [Ere.text, literal, endsPrefix]
  | .repeated inner dup =>
    obtain ⟨d, more, isText, ends⟩ := dup_endsPrefix dup
    rw [Ere.text, List.append_assoc, takeWhile_piece inner, literal, isPlain_repeated, isText]
    cases literal inner with
    | none => rfl
    | some c => simp [ends]

theorem times_literal {before text after : Str} {part : Str → Str → Str → Prop} {isEmpty : Prop}
    (one : ∀ before text after, part before text after →
      text = [] ∧ isEmpty ∨ text.head? = some c) {n : Nat} (h : Times part n before text after) :
    text = [] ∧ (n = 0 ∨ isEmpty) ∨ text.head? = some c := by
  induction n generalizing before text with
  | zero => exact Or.inl ⟨h, Or.inl rfl⟩
  | succ n ih =>
    obtain ⟨first, rest, rfl, head, tail⟩ := h
    rcases one _ _ _ head with ⟨rfl, empty⟩ | begins
    · rcases ih tail with ⟨rfl, -⟩ | begins
      · exact Or.inl ⟨rfl, Or.inr empty⟩
      · exact Or.inr begins
    · right
      rw [List.head?_append, begins]
      rfl

theorem matches_literal {first : Ere .piece} {before text after : Str} (isLiteral : literal first = some c)
    (h : first.Matches bracket before text after) :
    text = [] ∧ isOptional first = true ∨ text.head? = some c := by
  match first with
  | .char d ordinary =>
    rw [literal] at isLiteral
    split at isLiteral
    · cases isLiteral
    · cases isLiteral
      rw [Ere.Matches] at h
      simp [h]
  | .repeated inner dup =>
    rw [literal] at isLiteral
    obtain ⟨n, allowed, times⟩ := h
    rw [isOptional, Bool.or_eq_true, decide_eq_true_eq]
    rcases times_literal (fun _ _ _ one => matches_literal isLiteral one) times with
      ⟨none, zero | optional⟩ | begins
    · exact Or.inl ⟨none, Or.inl (Nat.le_zero.mp (zero ▸ allowed.1))⟩
    · exact Or.inl ⟨none, Or.inr optional⟩
    · exact Or.inr begins
  | .quoted _ | .any | .bracket _ | .start | .stop | .group _ => simp [literal] at isLiteral

theorem times_nil {part : Str → Str → Str → Prop} (one : ∀ before after, part before [] after)
    (n : Nat) (before after : Str) : Times part n before [] after := by
  induction n generalizing before with
  | zero => rfl
  | succ n ih => exact ⟨[], [], rfl, one _ _, ih _⟩

theorem matches_optional {first : Ere .piece} (optional : isOptional first = true)
    (before after : Str) : first.Matches bracket before [] after := by
  match first with
  | .repeated inner dup =>
    rw [isOptional, Bool.or_eq_true, decide_eq_true_eq] at optional
    refine ⟨dup.low, dup.allows_low, ?_⟩
    rcases optional with zero | inside
    · rw [zero]
      rfl
    · exact times_nil (matches_optional inside) _ _ _
  | .char _ _ | .quoted _ | .any | .bracket _ | .start | .stop | .group _ =>
    simp [isOptional] at optional

theorem plain_char {first : Ere .piece} {before text after : Str} (isLiteral : literal first = some c)
    (plain : isPlain first = true) : first.Matches bracket before text after ↔ text = [c] := by
  match first with
  | .char d ordinary =>
    rw [literal] at isLiteral
    split at isLiteral
    · cases isLiteral
    · cases isLiteral
      rw [Ere.Matches]
  | .repeated _ _ | .quoted _ | .any | .bracket _ | .start | .stop | .group _ =>
    simp [isPlain] at plain

end Piece

section Branch

variable {bracket : Str → Str → Prop} {c : Char}

/-- What comes after the branch in the expression is nothing or begins with the next branch. -/
def Ended (tail : Str) : Prop := ∀ d ∈ tail.head?, endsPrefix d = true

theorem Ended.takeWhile {tail : Str} (ended : Ended tail) :
    tail.takeWhile (fun c => !endsPrefix c) = [] := by
  cases tail with
  | nil => rfl
  | cons d rest =>
    rw [List.takeWhile_cons, ended d rfl]
    rfl

theorem branch_iff (branch : Ere .branch) (before tail : Str) (ended : Ended tail) :
    (∀ text after, branch.Matches bracket before text after →
      (branch.text ++ tail).takeWhile (fun c => !endsPrefix c) <+: text ++ after) ↔
      BranchReliable bracket before branch := by
  match branch with
  | .single first =>
    rw [Ere.text, takeWhile_piece, ended.takeWhile, BranchReliable]
    cases isLiteral : literal first with
    | none => simp
    | some c =>
      simp only [ite_self, reduceCtorEq, false_or]
      constructor
      · intro all
        by_contra optional
        have none := all [] [] (matches_optional (Bool.not_eq_false _ ▸ optional) before [])
        simp at none
      · intro needed text after h
        rcases matches_literal isLiteral h with ⟨-, optional⟩ | begins
        · rw [needed] at optional
          cases optional
        · obtain ⟨rest, rfl⟩ := List.head?_eq_some_iff.mp begins
          exact ⟨rest ++ after, rfl⟩
  | .seq first next =>
    rw [Ere.text, List.append_assoc, takeWhile_piece, BranchReliable]
    cases isLiteral : literal first with
    | none => simp
    | some c =>
      simp only
      by_cases plain : isPlain first = true
      · rw [if_pos plain, if_pos plain, ← branch_iff next (before ++ [c]) tail ended]
        constructor
        · intro all text after h
          have matched := all (c :: text) after
            ⟨[c], text, rfl, (plain_char isLiteral plain).mpr rfl, h⟩
          exact (List.cons_prefix_cons.mp matched).2
        · rintro all text after ⟨head, rest, rfl, matched, h⟩
          rw [(plain_char isLiteral plain).mp matched] at h ⊢
          exact List.cons_prefix_cons.mpr ⟨rfl, all rest after h⟩
      · rw [if_neg plain, if_neg plain]
        constructor
        · intro all optional text after h
          have matched := all text after
            ⟨[], text, rfl, matches_optional optional _ _, by rwa [List.append_nil]⟩
          obtain ⟨rest, same⟩ := matched
          rw [← same]
          rfl
        · rintro all text after ⟨head, rest, rfl, matched, h⟩
          rcases matches_literal isLiteral matched with ⟨rfl, optional⟩ | begins
          · rw [List.append_nil] at h
            obtain ⟨more, same⟩ := List.head?_eq_some_iff.mp (all optional rest after h)
            exact ⟨more, same.symm⟩
          · obtain ⟨more, rfl⟩ := List.head?_eq_some_iff.mp begins
            exact ⟨more ++ rest ++ after, rfl⟩

end Branch

section Expression

variable {bracket : Str → Str → Prop}

theorem regExpPrefix_eq_some {s result : Str} (isPrefix : regExpPrefix (some s) = some result) :
    ∃ rest, s = '^' :: rest ∧ result = rest.takeWhile (fun c => !endsPrefix c) ∧ result ≠ [] ∧
      hasStart (result.getLastD '^') (rest.drop result.length) = false := by
  rw [regExpPrefix.eq_def] at isPrefix
  split at isPrefix
  · rename_i rest isText
    cases isText
    dsimp only at isPrefix
    split at isPrefix
    · cases isPrefix
    · rename_i some
      split at isPrefix
      · cases isPrefix
      · rename_i noStart
        cases isPrefix
        exact ⟨rest, rfl, rfl, some, Bool.eq_false_iff.mpr noStart⟩
  · cases isPrefix

theorem start_of_text (first : Ere .piece) {more rest : Str}
    (isText : first.text ++ more = '^' :: rest)
    (some : rest.takeWhile (fun c => !endsPrefix c) ≠ []) : first = .start ∧ more = rest := by
  match first with
  | .start => exact ⟨rfl, (List.cons.inj isText).2⟩
  | .char c ordinary =>
    obtain ⟨rfl, -⟩ := List.cons.inj isText
    exact absurd (by decide) ordinary
  | .repeated inner dup =>
    obtain ⟨d, others, isDup, ends⟩ := dup_endsPrefix dup
    rw [Ere.text, List.append_assoc] at isText
    obtain ⟨-, isRest⟩ := start_of_text inner isText some
    rw [← isRest, isDup, List.cons_append, List.takeWhile_cons, ends] at some
    exact absurd rfl some
  | .quoted _ | .any | .bracket _ | .stop | .group _ => simp [Ere.text] at isText

theorem branch_of_prefix (branch : Ere .branch) {tail result : Str} (ended : Ended tail)
    (isPrefix : regExpPrefix (some (branch.text ++ tail)) = some result) :
    ∃ next, branch = .seq .start next ∧ result ≠ [] ∧
      result = (next.text ++ tail).takeWhile (fun c => !endsPrefix c) ∧
      hasStart (result.getLastD '^') ((next.text ++ tail).drop result.length) = false := by
  obtain ⟨rest, isText, isResult, some, noStart⟩ := regExpPrefix_eq_some isPrefix
  have begins : rest.takeWhile (fun c => !endsPrefix c) ≠ [] := isResult ▸ some
  match branch with
  | .single first =>
    obtain ⟨-, rfl⟩ := start_of_text first isText begins
    exact absurd ended.takeWhile begins
  | .seq first next =>
    rw [Ere.text, List.append_assoc] at isText
    obtain ⟨rfl, rfl⟩ := start_of_text first isText begins
    exact ⟨next, rfl, some, isResult, noStart⟩

theorem matchesIn_start (next : Ere .branch) (s : Str) :
    (Ere.seq .start next).MatchesIn bracket s ↔
      ∃ text after, s = text ++ after ∧ next.Matches bracket [] text after := by
  constructor
  · rintro ⟨before, text, after, rfl, head, rest, rfl, ⟨rfl, rfl⟩, h⟩
    exact ⟨rest, after, rfl, h⟩
  · rintro ⟨text, after, rfl, h⟩
    exact ⟨[], text, after, rfl, [], text, rfl, ⟨rfl, rfl⟩, h⟩

theorem start_iff (next : Ere .branch) {tail result : Str} (ended : Ended tail)
    (isResult : result = (next.text ++ tail).takeWhile (fun c => !endsPrefix c)) :
    (∀ s, (Ere.seq .start next).MatchesIn bracket s → result <+: s) ↔
      BranchReliable bracket [] next := by
  rw [← branch_iff next [] tail ended, ← isResult]
  constructor
  · intro all text after h
    exact all (text ++ after) ((matchesIn_start next _).mpr ⟨text, after, rfl, h⟩)
  · intro all s h
    obtain ⟨text, after, rfl, matched⟩ := (matchesIn_start next s).mp h
    exact all text after matched

theorem other_branch (others : Ere .alternatives) {result s : Str} (some : result ≠ [])
    (noStart : hasStart '|' others.text = false)
    (all : ∀ s, others.MatchesIn bracket s → result <+: s) : ¬ others.MatchesIn bracket s := by
  rintro ⟨before, text, after, rfl, h⟩
  obtain ⟨c, rest, rfl⟩ := List.exists_cons_of_ne_nil some
  obtain ⟨x, other⟩ : ∃ x : Char, x ≠ c := by
    by_cases isA : c = 'a'
    · exact ⟨'b', by rw [isA]; decide⟩
    · exact ⟨'a', Ne.symm isA⟩
  have shifted : others.Matches bracket (x :: before) text after :=
    h.shift noStart fun opens => absurd opens (by unfold Opens; decide)
  have begins := all (x :: (before ++ text ++ after)) ⟨x :: before, text, after, rfl, shifted⟩
  exact other (List.cons_prefix_cons.mp begins).1.symm

/-- A listing that is limited to the prefix hides no name that matches iff the expression is
reliable. -/
theorem regExpPrefix_iff (bracket : Str → Str → Prop) (e : Ere .alternatives) (result : Str)
    (isPrefix : regExpPrefix (some e.text) = some result) :
    (∀ s, e.MatchesIn bracket s → result <+: s) ↔ Reliable bracket e := by
  match e with
  | .one branch =>
    have ended : Ended [] := nofun
    rw [Ere.text, ← List.append_nil branch.text] at isPrefix
    obtain ⟨next, rfl, -, isResult, -⟩ := branch_of_prefix branch ended isPrefix
    rw [Reliable, ← start_iff next ended isResult]
    rfl
  | .alt branch others =>
    have ended : Ended ('|' :: others.text) := by
      rintro d same
      cases same
      decide
    rw [Ere.text] at isPrefix
    obtain ⟨next, rfl, some, isResult, noStart⟩ := branch_of_prefix branch ended isPrefix
    have short : result.length ≤ next.text.length := by
      rw [isResult, List.takeWhile_append, ended.takeWhile]
      split
      · simp
      · exact (List.takeWhile_sublist _).length_le
    rw [List.drop_append_of_le_length short, hasStart_append, Bool.or_eq_false_iff, hasStart,
      Bool.or_eq_false_iff] at noStart
    rw [Reliable, ← start_iff next ended isResult]
    have either : ∀ s, (Ere.alt (.seq .start next) others).MatchesIn bracket s ↔
        (Ere.seq .start next).MatchesIn bracket s ∨ others.MatchesIn bracket s := by
      intro s
      constructor
      · rintro ⟨before, text, after, isText, h | h⟩
        · exact Or.inl ⟨before, text, after, isText, h⟩
        · exact Or.inr ⟨before, text, after, isText, h⟩
      · rintro (⟨before, text, after, isText, h⟩ | ⟨before, text, after, isText, h⟩)
        · exact ⟨before, text, after, isText, Or.inl h⟩
        · exact ⟨before, text, after, isText, Or.inr h⟩
    constructor
    · intro all
      exact ⟨fun s h => all s ((either s).mpr (Or.inl h)), fun s =>
        other_branch others some noStart.2.2 fun t h => all t ((either t).mpr (Or.inr h))⟩
    · rintro ⟨first, none⟩ s h
      rcases (either s).mp h with h | h
      · exact first s h
      · exact absurd h (none s)

end Expression

/-! ## An optional character -/

/-- `^abc?` -/
def optionalLast : Ere .alternatives :=
  .one (.seq .start (.seq (.char 'a' (by decide)) (.seq (.char 'b' (by decide))
    (.single (.repeated (.char 'c' (by decide)) .question)))))

/-- The prefix is `abc`, but the expression matches `ab`. -/
theorem regExpPrefix_optionalLast :
    ¬ ∀ (bracket : Str → Str → Prop) (e : Ere .alternatives) (result s : Str),
      e.MatchesIn bracket s → regExpPrefix (some e.text) = some result → result <+: s := by
  intro claim
  have matched : optionalLast.MatchesIn (fun _ _ => False) ['a', 'b'] :=
    ⟨[], ['a', 'b'], [], rfl, [], ['a', 'b'], rfl, ⟨rfl, rfl⟩, ['a'], ['b'], rfl, rfl, ['b'], [], rfl,
      rfl, 0, ⟨by decide, by decide⟩, rfl⟩
  have wrong := claim _ optionalLast ['a', 'b', 'c'] ['a', 'b'] matched (by decide)
  exact absurd wrong (by decide)

/-- `^ab$` -/
def wholeName : Ere .alternatives :=
  .one (.seq .start (.seq (.char 'a' (by decide)) (.seq (.char 'b' (by decide)) (.single .stop))))

theorem regExpPrefix_wholeName :
    (∀ s, wholeName.MatchesIn (fun _ _ => False) s → ['a', 'b'] <+: s) ↔
      Reliable (fun _ _ => False) wholeName :=
  regExpPrefix_iff (fun _ _ => False) wholeName ['a', 'b'] (by decide)

end RegExpPrefix
