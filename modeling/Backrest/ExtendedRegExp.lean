import Mathlib.Data.List.Basic

/-!
# Extended regular expressions

The expressions of the POSIX grammar, with the text they are written as. Whether an
expression matches depends on what is before and after the matched part, since an anchor
looks at that. What a bracket expression matches depends on the locale.
-/

namespace ExtendedRegExp

/-- The characters that are not ordinary outside a bracket expression. -/
def special : List Char := ['^', '.', '[', '$', '(', ')', '|', '*', '+', '?', '\x7b', '\\']

/-- The value of decimal digits. -/
def count (digits : List Char) : Nat := digits.foldl (fun n c => 10 * n + (c.toNat - '0'.toNat)) 0

/-- How often an expression is repeated. -/
inductive Dup
  | star
  | plus
  | question
  | exactly (digits : List Char)
  | atLeast (digits : List Char)
  | between (low high : List Char) (ordered : count low ≤ count high)

def Dup.text : Dup → List Char
  | star => ['*']
  | plus => ['+']
  | question => ['?']
  | exactly digits => '\x7b' :: digits ++ ['\x7d']
  | atLeast digits => '\x7b' :: digits ++ [','] ++ ['\x7d']
  | between low high _ => '\x7b' :: low ++ ',' :: high ++ ['\x7d']

def Dup.low : Dup → Nat
  | star => 0
  | plus => 1
  | question => 0
  | exactly digits => count digits
  | atLeast digits => count digits
  | between low _ _ => count low

def Dup.high : Dup → Option Nat
  | star => none
  | plus => none
  | question => some 1
  | exactly digits => some (count digits)
  | atLeast _ => none
  | between _ high _ => some (count high)

def Dup.Allows (this : Dup) (n : Nat) : Prop := this.low ≤ n ∧ ∀ high ∈ this.high, n ≤ high

theorem Dup.allows_low (dup : Dup) : dup.Allows dup.low := by
  refine ⟨Nat.le_refl _, fun high isHigh => ?_⟩
  cases dup with
  | star | plus | atLeast => cases isHigh
  | question | exactly =>
    cases isHigh
    simp [Dup.low]
  | between low most ordered =>
    cases isHigh
    exact ordered

/-- The symbols of the grammar. -/
inductive Level
  | piece
  | branch
  | alternatives

/-- An expression, as the grammar derives it. -/
inductive Ere : Level → Type
  | char (c : Char) (ordinary : c ∉ special) : Ere .piece
  | quoted (c : Char) : Ere .piece
  | any : Ere .piece
  | bracket (inner : List Char) : Ere .piece
  | start : Ere .piece
  | stop : Ere .piece
  | group (inner : Ere .alternatives) : Ere .piece
  | repeated (inner : Ere .piece) (dup : Dup) : Ere .piece
  | single (first : Ere .piece) : Ere .branch
  | seq (first : Ere .piece) (next : Ere .branch) : Ere .branch
  | one (first : Ere .branch) : Ere .alternatives
  | alt (first : Ere .branch) (others : Ere .alternatives) : Ere .alternatives

def Ere.text : {level : Level} → Ere level → List Char
  | _, char c _ => [c]
  | _, quoted c => ['\\', c]
  | _, any => ['.']
  | _, bracket inner => '[' :: inner ++ [']']
  | _, start => ['^']
  | _, stop => ['$']
  | _, group inner => '(' :: inner.text ++ [')']
  | _, repeated inner dup => inner.text ++ dup.text
  | _, single first => first.text
  | _, seq first next => first.text ++ next.text
  | _, one first => first.text
  | _, alt first others => first.text ++ '|' :: others.text

/-- The text is matched in this many parts, one after the other. -/
def Times (part : List Char → List Char → List Char → Prop) :
    Nat → List Char → List Char → List Char → Prop
  | 0, _, text, _ => text = []
  | n + 1, before, text, after =>
    ∃ first rest, text = first ++ rest ∧ part before first (rest ++ after) ∧
      Times part n (before ++ first) rest after

section Match

-- what a bracket expression with this text inside matches
variable (bracket : List Char → List Char → Prop)

def Ere.Matches : {level : Level} → Ere level → List Char → List Char → List Char → Prop
  | _, char c _, _, text, _ => text = [c]
  | _, quoted c, _, text, _ => text = [c]
  | _, any, _, text, _ => ∃ c, text = [c]
  | _, .bracket inner, _, text, _ => bracket inner text
  | _, start, before, text, _ => text = [] ∧ before = []
  | _, stop, _, text, after => text = [] ∧ after = []
  | _, group inner, before, text, after => inner.Matches before text after
  | _, repeated inner dup, before, text, after =>
    ∃ n, dup.Allows n ∧ Times inner.Matches n before text after
  | _, single first, before, text, after => first.Matches before text after
  | _, seq first next, before, text, after =>
    ∃ head rest, text = head ++ rest ∧ first.Matches before head (rest ++ after) ∧
      next.Matches (before ++ head) rest after
  | _, one first, before, text, after => first.Matches before text after
  | _, alt first others, before, text, after =>
    first.Matches before text after ∨ others.Matches before text after

/-- The expression matches anywhere in the string. -/
def Ere.MatchesIn {level : Level} (e : Ere level) (s : List Char) : Prop :=
  ∃ before text after, s = before ++ text ++ after ∧ e.Matches bracket before text after

end Match

section Anchor

variable {bracket : List Char → List Char → Prop}

theorem getLastD_append (s t : List Char) (c : Char) :
    (s ++ t).getLastD c = t.getLastD (s.getLastD c) := by
  induction s generalizing c with
  | nil => rfl
  | cons d rest ih =>
    rw [List.cons_append, List.getLastD_cons, List.getLastD_cons]
    exact ih d

/-- An anchor is written after a character other than those of which it may be a part. -/
def hasStart (prev : Char) : List Char → Bool
  | [] => false
  | c :: rest => (c == '^' && prev != '[' && prev != '\\') || hasStart c rest

theorem hasStart_append (prev : Char) (s t : List Char) :
    hasStart prev (s ++ t) = (hasStart prev s || hasStart (s.getLastD prev) t) := by
  induction s generalizing prev with
  | nil => rfl
  | cons c rest ih =>
    rw [List.cons_append, hasStart, hasStart, ih, Bool.or_assoc, List.getLastD_cons]

/-- The last character is one that an anchor may be a part of. -/
def Opens (c : Char) : Prop := c = '[' ∨ c = '\\'

theorem Dup.not_opens (dup : Dup) (prev : Char) : ¬ Opens (dup.text.getLastD prev) := by
  rw [Opens]
  cases dup with
  | star | plus | question => simp [Dup.text]
  | exactly | atLeast | between =>
    rw [Dup.text, List.getLastD_concat]
    decide

/-- What ends with such a character ends with a quoted one, which is matched. -/
theorem Ere.ne_nil_of_opens {level : Level} (e : Ere level) {prev : Char}
    {before text after : List Char} (notAlternatives : level ≠ .alternatives)
    (opens : Opens (e.text.getLastD prev)) (h : e.Matches bracket before text after) :
    text ≠ [] := by
  induction e generalizing prev before text after with
  | char c ordinary =>
    rcases opens with rfl | rfl <;> exact absurd (by decide) ordinary
  | quoted c =>
    rw [Matches] at h
    simp [h]
  | any | start | stop => simp [Opens, Ere.text] at opens
  | bracket | group =>
    rw [Ere.text, List.getLastD_concat] at opens
    exact absurd opens (by rw [Opens]; decide)
  | repeated inner dup =>
    rw [Ere.text, getLastD_append] at opens
    exact absurd opens (dup.not_opens _)
  | single first ih => exact ih nofun opens h
  | seq first next _ ih =>
    obtain ⟨head, rest, rfl, -, matched⟩ := h
    rw [Ere.text, getLastD_append] at opens
    exact fun none => ih nofun opens matched (List.append_eq_nil_iff.mp none).2
  | one | alt => exact absurd rfl notAlternatives

theorem Times.shift {part : List Char → List Char → List Char → Prop} {P : List Char → Prop}
    (grows : ∀ before first, P before → P (before ++ first)) {x : Char}
    (one : ∀ before first after, P before → part before first after →
      part (x :: before) first after) {n : Nat} {before text after : List Char} (holds : P before)
    (h : Times part n before text after) : Times part n (x :: before) text after := by
  induction n generalizing before text with
  | zero => exact h
  | succ n ih =>
    obtain ⟨first, rest, isText, head, tail⟩ := h
    exact ⟨first, rest, isText, one _ _ _ holds head, ih (grows _ _ holds) tail⟩

/-- An expression without an anchor that could match still matches with more text before. -/
theorem Ere.Matches.shift {level : Level} {e : Ere level} {prev x : Char}
    {before text after : List Char} (noStart : hasStart prev e.text = false)
    (inside : Opens prev → before ≠ []) (h : e.Matches bracket before text after) :
    e.Matches bracket (x :: before) text after := by
  induction e generalizing prev before text after with
  | char | quoted | any | bracket | stop => exact h
  | start =>
    obtain ⟨-, rfl⟩ := h
    refine absurd rfl (inside ?_)
    rw [Opens]
    by_contra notOpens
    rw [not_or] at notOpens
    simp [Ere.text, hasStart, notOpens] at noStart
  | group inner ih =>
    rw [Ere.text, List.cons_append, hasStart, Bool.or_eq_false_iff, hasStart_append,
      Bool.or_eq_false_iff] at noStart
    exact ih noStart.2.1 (fun opens => absurd opens (by rw [Opens]; decide)) h
  | repeated inner dup ih =>
    rw [Ere.text, hasStart_append, Bool.or_eq_false_iff] at noStart
    obtain ⟨n, allowed, times⟩ := h
    refine ⟨n, allowed, times.shift (P := fun before => Opens prev → before ≠ []) ?_ ?_ inside⟩
    · exact fun before first some opens none => some opens (List.append_eq_nil_iff.mp none).1
    · exact fun before first after some matched => ih noStart.1 some matched
  | single first ih => exact ih noStart inside h
  | seq first next ihFirst ihNext =>
    obtain ⟨head, rest, isText, matched, tail⟩ := h
    rw [Ere.text, hasStart_append, Bool.or_eq_false_iff] at noStart
    refine ⟨head, rest, isText, ihFirst noStart.1 inside matched, ihNext noStart.2 ?_ tail⟩
    intro opens none
    exact first.ne_nil_of_opens nofun opens matched (List.append_eq_nil_iff.mp none).2
  | one first ih => exact ih noStart inside h
  | alt first others ihFirst ihOthers =>
    rw [Ere.text, hasStart_append, Bool.or_eq_false_iff, hasStart, Bool.or_eq_false_iff] at noStart
    rcases h with h | h
    · exact Or.inl (ihFirst noStart.1 inside h)
    · exact Or.inr (ihOthers noStart.2.2 (fun opens => absurd opens (by rw [Opens]; decide)) h)

end Anchor

end ExtendedRegExp
