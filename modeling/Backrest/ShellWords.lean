import Mathlib.Data.List.Basic

/-!
# Words of a shell command

A command line is split at blanks outside quotes, and the quotes are removed. A line whose
words are not all literal (an expansion, an operator or a quote that is left open) has no
words here. Text that holds no quote of its own is one word exactly if it is plain, and a
text in double quotes is one word exactly if it has nothing to expand.
-/

namespace ShellWords

abbrev Text := List Char

def isBlank (c : Char) : Bool := c == ' ' || c == '\t'

/-- What begins an expansion, inside of double quotes too. -/
def isExpansion (c : Char) : Bool := c == '$' || c == '\x60'

def isOperator (c : Char) : Bool := c ∈ [';', '&', '|', '<', '>', '(', ')', '\n']

def isQuote (c : Char) : Bool := c == '"' || c == '\'' || c == '\\'

inductive Quote where
  | bare
  | bareSlash
  | single
  | double
  | doubleSlash

/-- The words of a text, where a part of the first one may be read. -/
def wordsFrom : Quote → Option Text → Text → Option (List Text)
  | .bare, word, [] => some word.toList
  | .bare, word, c :: rest =>
    if isBlank c then (wordsFrom .bare none rest).map (word.toList ++ ·)
    else if c = '#' ∧ word = none then if '\n' ∈ rest then none else some []
    else if c = '"' then wordsFrom .double (some (word.getD [])) rest
    else if c = '\'' then wordsFrom .single (some (word.getD [])) rest
    else if c = '\\' then wordsFrom .bareSlash (some (word.getD [])) rest
    else if isExpansion c || isOperator c then none
    else wordsFrom .bare (some (word.getD [] ++ [c])) rest
  | .bareSlash, word, c :: rest =>
    wordsFrom .bare (some (word.getD [] ++ if c = '\n' then [] else [c])) rest
  | .single, word, c :: rest =>
    if c = '\'' then wordsFrom .bare word rest
    else wordsFrom .single (some (word.getD [] ++ [c])) rest
  | .double, word, c :: rest =>
    if c = '"' then wordsFrom .bare word rest
    else if c = '\\' then wordsFrom .doubleSlash word rest
    else if isExpansion c then none
    else wordsFrom .double (some (word.getD [] ++ [c])) rest
  | .doubleSlash, word, c :: rest =>
    if c = '\n' then wordsFrom .double word rest
    else if isExpansion c || c == '"' || c == '\\' then
      wordsFrom .double (some (word.getD [] ++ [c])) rest
    else wordsFrom .double (some (word.getD [] ++ ['\\', c])) rest
  | _, _, [] => none

def words (text : Text) : Option (List Text) := wordsFrom .bare none text

/-- A character that stands for itself. -/
def isPlain (c : Char) : Bool := !(isBlank c || isQuote c || isExpansion c || isOperator c)

theorem wordsFrom_bare_cons (word : Option Text) (c : Char) (rest : Text) :
    wordsFrom .bare word (c :: rest) =
      if isBlank c then (wordsFrom .bare none rest).map (word.toList ++ ·)
      else if c = '#' ∧ word = none then if '\n' ∈ rest then none else some []
      else if c = '"' then wordsFrom .double (some (word.getD [])) rest
      else if c = '\'' then wordsFrom .single (some (word.getD [])) rest
      else if c = '\\' then wordsFrom .bareSlash (some (word.getD [])) rest
      else if isExpansion c || isOperator c then none
      else wordsFrom .bare (some (word.getD [] ++ [c])) rest := rfl

theorem wordsFrom_double_cons (word : Option Text) (c : Char) (rest : Text) :
    wordsFrom .double word (c :: rest) =
      if c = '"' then wordsFrom .bare word rest
      else if c = '\\' then wordsFrom .doubleSlash word rest
      else if isExpansion c then none
      else wordsFrom .double (some (word.getD [] ++ [c])) rest := rfl

section Plain

variable {w s rest : Text} {c : Char}

theorem unquoted_iff : isQuote c = false ↔ c ≠ '"' ∧ c ≠ '\'' ∧ c ≠ '\\' := by
  simp [isQuote, and_assoc]

theorem plain_iff : isPlain c = true ↔
    isBlank c = false ∧ (c ≠ '"' ∧ c ≠ '\'' ∧ c ≠ '\\') ∧ isExpansion c = false ∧
      isOperator c = false := by
  rw [← unquoted_iff]
  simp [isPlain, and_assoc]

theorem wordsFrom_plain (plain : isPlain c = true) :
    wordsFrom .bare (some w) (c :: rest) = wordsFrom .bare (some (w ++ [c])) rest := by
  obtain ⟨blank, ⟨double, single, slash⟩, expansion, operator⟩ := plain_iff.mp plain
  simp [wordsFrom_bare_cons, blank, double, single, slash, expansion, operator]

theorem wordsFrom_append (plain : ∀ c ∈ s, isPlain c = true) :
    wordsFrom .bare (some w) (s ++ rest) = wordsFrom .bare (some (w ++ s)) rest := by
  induction s generalizing w with
  | nil => rw [List.nil_append, List.append_nil]
  | cons c s ih =>
    rw [List.cons_append, wordsFrom_plain (plain c List.mem_cons_self),
      ih fun d mem => plain d (List.mem_cons_of_mem _ mem), List.append_assoc, List.singleton_append]

theorem wordsFrom_blank (blank : isBlank c = true) :
    wordsFrom .bare (some w) (c :: rest) = (words rest).map (w :: ·) := by
  simp [wordsFrom_bare_cons, blank, words]

theorem words_blank (blank : isBlank c = true) : words (c :: rest) = words rest := by
  simp [words, wordsFrom_bare_cons, blank]

theorem words_cons (plain : isPlain c = true) (start : c ≠ '#') :
    words (c :: rest) = wordsFrom .bare (some [c]) rest := by
  obtain ⟨blank, ⟨double, single, slash⟩, expansion, operator⟩ := plain_iff.mp plain
  simp [words, wordsFrom_bare_cons, blank, double, single, slash, expansion, operator, start]

theorem wordsFrom_quote :
    wordsFrom .bare (some w) ('"' :: rest) = wordsFrom .double (some w) rest := by
  simp [wordsFrom_bare_cons, isBlank]

theorem wordsFrom_double (closed : ∀ c ∈ s, c ≠ '"' ∧ c ≠ '\\' ∧ isExpansion c = false) :
    wordsFrom .double (some w) (s ++ '"' :: rest) = wordsFrom .bare (some (w ++ s)) rest := by
  induction s generalizing w with
  | nil => simp [wordsFrom_double_cons]
  | cons c s ih =>
    obtain ⟨double, slash, expansion⟩ := closed c List.mem_cons_self
    have tail := ih (w := w ++ [c]) fun d mem => closed d (List.mem_cons_of_mem _ mem)
    rw [List.append_assoc, List.singleton_append] at tail
    simp [wordsFrom_double_cons, double, slash, expansion, tail]

end Plain

section Exact

variable {w s rest : Text} {xs : List Text}

/-- A text without quotes that is read as a whole has no blank and nothing special. -/
theorem plain_of_word (bare : ∀ c ∈ s, isQuote c = false)
    (read : wordsFrom .bare (some w) (s ++ ' ' :: rest) = some ((w ++ s) :: xs)) :
    ∀ c ∈ s, isPlain c = true := by
  induction s generalizing w with
  | nil => exact fun c mem => by cases mem
  | cons c s ih =>
    have unquoted := bare c List.mem_cons_self
    have others := fun d mem => bare d (List.mem_cons_of_mem c mem)
    rw [List.cons_append] at read
    by_cases plain : isPlain c = true
    · have whole : w ++ c :: s = w ++ [c] ++ s := by simp
      rw [wordsFrom_plain plain, whole] at read
      intro d mem
      rcases List.mem_cons.mp mem with rfl | mem
      · exact plain
      · exact ih others read d mem
    · exfalso
      by_cases blank : isBlank c = true
      · rw [wordsFrom_blank blank, Option.map_eq_some_iff] at read
        obtain ⟨_, -, same⟩ := read
        have length := congrArg List.length (List.cons.inj same).1
        simp at length
      · obtain ⟨double, single, slash⟩ := unquoted_iff.mp unquoted
        have special : (isExpansion c || isOperator c) = true := by
          rw [plain_iff] at plain
          rw [Bool.or_eq_true]
          by_contra ordinary
          rw [not_or, Bool.not_eq_true, Bool.not_eq_true] at ordinary
          exact plain ⟨Bool.eq_false_iff.mpr blank, ⟨double, single, slash⟩, ordinary⟩
        simp [wordsFrom_bare_cons, blank, double, single, slash, special] at read

theorem read_spec {q : Quote} {word : Option Text} {ws : List Text}
    (unslashed : ∀ c ∈ s, c ≠ '\'' ∧ c ≠ '\\') (mode : q = .bare ∨ q = .double)
    (unquoted : '"' ∉ word.getD []) (read : wordsFrom q word s = some ws) :
    (∀ x ∈ ws, '"' ∉ x) ∧ ∀ w, word = some w → ∃ x xs, ws = x :: xs ∧ w <+: x := by
  induction s generalizing q word ws with
  | nil =>
    rcases mode with rfl | rfl
    · cases word with
      | none =>
        cases read
        exact ⟨fun x mem => (by cases mem), fun w begun => (by cases begun)⟩
      | some w =>
        cases read
        refine ⟨fun x mem => ?_, fun v begun => ⟨w, [], rfl, ?_⟩⟩
        · rwa [List.mem_singleton.mp mem]
        · exact Option.some.inj begun ▸ List.prefix_rfl
    · cases word <;> cases read
  | cons c s ih =>
    obtain ⟨single, slash⟩ := unslashed c List.mem_cons_self
    have others := fun d mem => unslashed d (List.mem_cons_of_mem c mem)
    have grown : ∀ d, d ≠ '"' → ∀ {mode' : Quote}, mode' = .bare ∨ mode' = .double →
        wordsFrom mode' (some (word.getD [] ++ [d])) s = some ws →
        (∀ x ∈ ws, '"' ∉ x) ∧ ∀ w, word = some w → ∃ x xs, ws = x :: xs ∧ w <+: x := by
      intro d ordinary mode' isMode rest
      have more : '"' ∉ (some (word.getD [] ++ [d])).getD [] := by
        simpa [Ne.symm ordinary] using unquoted
      obtain ⟨clean, front⟩ := ih others isMode more rest
      refine ⟨clean, fun w begun => ?_⟩
      obtain ⟨x, xs, same, before⟩ := front _ rfl
      rw [begun] at before
      exact ⟨x, xs, same, (List.prefix_append w [d]).trans before⟩
    rcases mode with rfl | rfl
    · rw [wordsFrom_bare_cons] at read
      split at read
      next blank =>
        obtain ⟨xs, tail, rfl⟩ := Option.map_eq_some_iff.mp read
        obtain ⟨clean, -⟩ := ih others (.inl rfl) (by simp) tail
        constructor
        · intro x mem
          rcases List.mem_append.mp mem with mem | mem
          · cases word with
            | none => cases mem
            | some w => rwa [List.mem_singleton.mp mem]
          · exact clean x mem
        · rintro w rfl
          exact ⟨w, xs, rfl, List.prefix_rfl⟩
      next =>
        split at read
        next comment =>
          split at read
          · cases read
          · cases read
            refine ⟨fun x mem => (by cases mem), fun w begun => ?_⟩
            rw [comment.2] at begun
            cases begun
        next =>
          split at read
          next =>
            obtain ⟨clean, front⟩ := ih others (.inr rfl) (by simpa using unquoted) read
            refine ⟨clean, fun w begun => front w ?_⟩
            rw [begun]
            rfl
          next double =>
            split at read
            · cases read
            · exact grown c double (.inl rfl) read
    · rw [wordsFrom_double_cons] at read
      split at read
      · exact ih others (.inl rfl) unquoted read
      next double =>
        split at read
        · cases read
        · exact grown c double (.inr rfl) read

/-- Outside quotes a character is skipped, ends the reading or starts a word. -/
theorem words_bare {c : Char} {ws : List Text} (bare : isQuote c = false)
    (read : words (c :: s) = some ws) :
    isBlank c = true ∧ words s = some ws ∨ c = '#' ∧ ws = [] ∨
      (isPlain c = true ∧ c ≠ '#') ∧ wordsFrom .bare (some [c]) s = some ws := by
  by_cases blank : isBlank c = true
  · rw [words_blank blank] at read
    exact .inl ⟨blank, read⟩
  by_cases comment : c = '#'
  · rw [words, wordsFrom_bare_cons, if_neg blank, if_pos ⟨comment, rfl⟩] at read
    split at read
    · cases read
    · cases read
      exact .inr (.inl ⟨comment, rfl⟩)
  obtain ⟨double, single, slash⟩ := unquoted_iff.mp bare
  rw [words, wordsFrom_bare_cons, if_neg blank, if_neg (fun both => comment both.1), if_neg double,
    if_neg single, if_neg slash] at read
  split at read
  · cases read
  next ordinary =>
    rw [Bool.or_eq_true, not_or, Bool.not_eq_true, Bool.not_eq_true] at ordinary
    have plain := plain_iff.mpr ⟨Bool.eq_false_iff.mpr blank, ⟨double, single, slash⟩, ordinary⟩
    exact .inr (.inr ⟨⟨plain, comment⟩, read⟩)

section Start

variable {d : Char} (unslashed : ∀ c ∈ rest, c ≠ '\'' ∧ c ≠ '\\') (plain : isPlain d = true)
  (start : d ≠ '#')

include unslashed plain start

theorem head_of_words {x : Text} (bare : ∀ c ∈ s, isQuote c = false)
    (read : words (s ++ ' ' :: d :: rest) = some (x :: xs)) :
    ∃ e front, x = e :: front ∧ isBlank e = false := by
  have begun : ∀ {e : Char} {t : Text}, isPlain e = true → (∀ c ∈ t, c ≠ '\'' ∧ c ≠ '\\') →
      wordsFrom .bare (some [e]) t = some (x :: xs) → ∃ e front, x = e :: front ∧ isBlank e = false := by
    intro e t isPlain clean more
    have ordinary := plain_iff.mp isPlain
    obtain ⟨y, ys, same, front⟩ := (read_spec clean (.inl rfl)
      (by simpa using Ne.symm ordinary.2.1.1) more).2 [e] rfl
    obtain ⟨rfl, -⟩ := List.cons.inj same
    obtain ⟨tail, rfl⟩ := front
    exact ⟨e, tail, rfl, ordinary.1⟩
  have ordinary := plain_iff.mp plain
  induction s with
  | nil =>
    rw [List.nil_append, words_blank rfl, words_cons plain start] at read
    exact begun plain unslashed read
  | cons c s ih =>
    have others := fun e mem => bare e (List.mem_cons_of_mem c mem)
    rcases words_bare (bare c List.mem_cons_self) read with ⟨-, tail⟩ | ⟨-, none⟩ | ⟨⟨isPlain, -⟩, more⟩
    · exact ih others tail
    · cases none
    · refine begun isPlain (fun e mem => ?_) more
      rcases List.mem_append.mp mem with mem | mem
      · exact (unquoted_iff.mp (others e mem)).2
      rcases List.mem_cons.mp mem with rfl | mem
      · decide
      rcases List.mem_cons.mp mem with rfl | mem
      · exact ordinary.2.1.2
      · exact unslashed e mem

/-- A text without quotes at the start is the first word only if it is plain. -/
theorem plain_of_words (bare : ∀ c ∈ s, isQuote c = false)
    (read : words (s ++ ' ' :: d :: rest) = some (s :: xs)) :
    s ≠ [] ∧ s.head? ≠ some '#' ∧ ∀ c ∈ s, isPlain c = true := by
  obtain ⟨e, front, rfl, solid⟩ := head_of_words unslashed plain start bare read
  have others := fun c mem => bare c (List.mem_cons_of_mem e mem)
  rcases words_bare (bare e List.mem_cons_self) read with ⟨blank, -⟩ | ⟨-, none⟩ | ⟨⟨isPlain, first⟩, more⟩
  · rw [solid] at blank
    cases blank
  · cases none
  · refine ⟨List.cons_ne_nil _ _, by simpa using first, fun c mem => ?_⟩
    rcases List.mem_cons.mp mem with rfl | mem
    · exact isPlain
    · exact plain_of_word others more c mem

end Start

/-- Double quotes hold one word when there is nothing in them to expand. -/
theorem closed_of_double {ws : List Text} (unquoted : ∀ c ∈ s, c ≠ '"' ∧ c ≠ '\\')
    (read : wordsFrom .double (some w) (s ++ '"' :: rest) = some ws) :
    ∀ c ∈ s, isExpansion c = false := by
  induction s generalizing w with
  | nil => exact fun c mem => by cases mem
  | cons c s ih =>
    obtain ⟨double, slash⟩ := unquoted c List.mem_cons_self
    rw [List.cons_append, wordsFrom_double_cons, if_neg double, if_neg slash] at read
    split at read
    · cases read
    next expansion =>
      intro d mem
      rcases List.mem_cons.mp mem with rfl | mem
      · exact Bool.eq_false_iff.mpr expansion
      · exact ih (fun e mem => unquoted e (List.mem_cons_of_mem _ mem)) read d mem

end Exact

end ShellWords
