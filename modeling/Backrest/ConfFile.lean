import Mathlib.Data.List.Nodup

/-!
# Settings of a configuration file

A line of the file is `name = 'value'`, a comment or blank. In the value a doubled quote is a
quote and a backslash begins an escape. A value that is written between quotes as it is reads
as itself exactly if it holds neither of the two.
-/

namespace ConfFile

abbrev Text := List Char

def isLetter (c : Char) : Bool := c.isAlpha || c == '_' || decide (0x80 ≤ c.toNat)

def isLetterOrDigit (c : Char) : Bool := isLetter c || c.isDigit

def isIdent : Text → Bool
  | [] => false
  | c :: rest => isLetter c && rest.all isLetterOrDigit

/-- An identifier, or two of them with a dot. -/
def isName (name : Text) : Bool :=
  isIdent (name.takeWhile (· != '.')) &&
    match name.dropWhile (· != '.') with
    | [] => true
    | _ :: ident => isIdent ident

def isNameChar (c : Char) : Bool := isLetterOrDigit c || c == '.'

def isBlank (c : Char) : Bool := c == ' ' || c == '\t' || c == '\r'

def escapeChar : Char → Char
  | 'b' => '\x08'
  | 'f' => '\x0c'
  | 'n' => '\n'
  | 'r' => '\r'
  | 't' => '\t'
  | c => c

def octalDigit (c : Char) : Option Nat :=
  if '0' ≤ c ∧ c ≤ '7' then some (c.toNat - '0'.toNat) else none

/-- What was read before the next character. -/
inductive Pending where
  | text
  | quote
  | slash
  | octal (left value : Nat)

/-- A value up to the quote that ends it, and the rest of the line. -/
def scanString : Pending → Text → Option (Text × Text)
  | .text, [] => none
  | .text, c :: rest =>
    if c = '\'' then scanString .quote rest
    else if c = '\\' then scanString .slash rest
    else (scanString .text rest).map fun read => (c :: read.1, read.2)
  | .quote, [] => some ([], [])
  | .quote, c :: rest =>
    if c = '\'' then (scanString .text rest).map fun read => (c :: read.1, read.2)
    else some ([], c :: rest)
  | .slash, [] => none
  | .slash, c :: rest =>
    match octalDigit c with
    | some digit => scanString (.octal 2 digit) rest
    | none => (scanString .text rest).map fun read => (escapeChar c :: read.1, read.2)
  | .octal _ _, [] => none
  | .octal left value, c :: rest =>
    match if left = 0 then none else octalDigit c with
    | some digit => scanString (.octal (left - 1) (8 * value + digit)) rest
    | none =>
      (if c = '\'' then scanString .quote rest
        else if c = '\\' then scanString .slash rest
        else (scanString .text rest).map fun read => (c :: read.1, read.2)).map
        fun read => (Char.ofNat (value % 256) :: read.1, read.2)

/-- Is nothing left of a line but blanks and a comment? -/
def isEnd (line : Text) : Bool :=
  match line.dropWhile isBlank with
  | [] => true
  | c :: _ => c == '#'

def readValue (line : Text) : Option Text :=
  match line with
  | '\'' :: rest => (scanString .text rest).bind fun read => if isEnd read.2 then some read.1 else none
  | _ => none

def readSetting (line : Text) : Option (Text × Text) :=
  let name := line.takeWhile isNameChar
  match (line.dropWhile isNameChar).dropWhile isBlank with
  | '=' :: rest =>
    if isName name then (readValue (rest.dropWhile isBlank)).map fun value => (name, value) else none
  | _ => none

def readLine (line : Text) : Option (Option (Text × Text)) :=
  if isEnd line then some none else (readSetting (line.dropWhile isBlank)).map some

/-- The settings of a file, in order; nothing for a file with an error. -/
def readConf (text : Text) : Option (List (Text × Text)) :=
  ((text.splitOn '\n').mapM readLine).map (List.filterMap id)

/-- A value that needs no quoting in the file. -/
def isVerbatim (value : Text) : Bool := !(value.contains '\'' || value.contains '\\')

section Scan

theorem verbatim_iff {value : Text} :
    isVerbatim value = true ↔ ∀ c ∈ value, c ≠ '\'' ∧ c ≠ '\\' := by
  simp only [isVerbatim, Bool.not_eq_true', Bool.or_eq_false_iff, List.contains_eq_mem,
    decide_eq_false_iff_not]
  constructor
  · rintro ⟨quote, slash⟩ c mem
    exact ⟨fun same => quote (same ▸ mem), fun same => slash (same ▸ mem)⟩
  · exact fun none => ⟨fun mem => (none _ mem).1 rfl, fun mem => (none _ mem).2 rfl⟩

theorem scanString_verbatim {value : Text} (verbatim : ∀ c ∈ value, c ≠ '\'' ∧ c ≠ '\\') :
    scanString .text (value ++ ['\'']) = some (value, []) := by
  induction value with
  | nil => rfl
  | cons c value ih =>
    obtain ⟨quote, slash⟩ := verbatim c List.mem_cons_self
    rw [List.cons_append, scanString, if_neg quote, if_neg slash,
      ih fun d mem => verbatim d (List.mem_cons_of_mem _ mem)]
    rfl

def Pending.extra : Pending → Nat
  | .text => 0
  | .quote => 1
  | .slash => 0
  | .octal _ _ => 1

/-- No more is read than there is, and the quote at the end is not part of it. -/
theorem length_scanString {pending : Pending} {line : Text} {read : Text × Text}
    (done : scanString pending line = some read) :
    read.1.length + 1 ≤ line.length + pending.extra := by
  induction line generalizing pending read with
  | nil =>
    cases pending with
    | quote =>
      cases done
      exact Nat.le_refl _
    | _ => cases done
  | cons c line ih =>
    have step : ∀ {read : Text × Text}, (if c = '\'' then scanString .quote line
        else if c = '\\' then scanString .slash line
        else (scanString .text line).map fun read => (c :: read.1, read.2)) = some read →
        read.1.length + 1 ≤ line.length + 1 := by
      intro read done
      split at done
      · exact ih done
      split at done
      · exact Nat.le_trans (ih done) (Nat.le_succ _)
      · obtain ⟨tail, scanned, rfl⟩ := Option.map_eq_some_iff.mp done
        exact Nat.succ_le_succ (ih scanned)
    cases pending with
    | text =>
      rw [scanString] at done
      exact step done
    | quote =>
      rw [scanString] at done
      split at done
      · obtain ⟨tail, scanned, rfl⟩ := Option.map_eq_some_iff.mp done
        exact Nat.le_succ_of_le (Nat.succ_le_succ (ih scanned))
      · cases done
        simp [Pending.extra]
    | slash =>
      rw [scanString] at done
      split at done
      · exact ih done
      · obtain ⟨tail, scanned, rfl⟩ := Option.map_eq_some_iff.mp done
        exact Nat.succ_le_succ (ih scanned)
    | octal left value =>
      rw [scanString] at done
      split at done
      · exact Nat.le_succ_of_le (ih done)
      · obtain ⟨tail, scanned, rfl⟩ := Option.map_eq_some_iff.mp done
        exact Nat.succ_le_succ (step scanned)

/-- A value that is read back holds no quote and no backslash. -/
theorem verbatim_of_scan {value rest : Text}
    (read : scanString .text (value ++ ['\'']) = some (value, rest)) :
    ∀ c ∈ value, c ≠ '\'' ∧ c ≠ '\\' := by
  induction value with
  | nil => exact fun c mem => by cases mem
  | cons c value ih =>
    rw [List.cons_append, scanString] at read
    split at read
    next quote =>
      exfalso
      -- the quote ends the value, or it is one of two and a character is lost
      cases value with
      | nil => cases read
      | cons d value =>
        rw [List.cons_append, scanString] at read
        split at read
        · obtain ⟨tail, scanned, same⟩ := Option.map_eq_some_iff.mp read
          have length := length_scanString scanned
          have lost := congrArg (fun read => read.1.length) same
          simp [Pending.extra] at length lost
          omega
        · cases read
    next quote =>
      split at read
      next slash =>
        exfalso
        have length := length_scanString read
        simp only [List.length_append, List.length_cons, List.length_nil, Pending.extra] at length
        omega
      next slash =>
        obtain ⟨tail, scanned, same⟩ := Option.map_eq_some_iff.mp read
        obtain ⟨front, back⟩ := Prod.mk.inj same
        have whole : tail = (value, rest) := Prod.ext (List.cons.inj front).2 back
        rw [whole] at scanned
        intro d mem
        rcases List.mem_cons.mp mem with rfl | mem
        · exact ⟨quote, slash⟩
        · exact ih scanned d mem

end Scan

section Lines

variable {name value line rest : Text}

theorem isIdent_spec (ident : isIdent name = true) :
    (∃ c front, name = c :: front ∧ isLetter c = true) ∧ ∀ c ∈ name, isNameChar c = true := by
  cases name with
  | nil => cases ident
  | cons c front =>
    rw [isIdent, Bool.and_eq_true, List.all_eq_true] at ident
    refine ⟨⟨c, front, rfl, ident.1⟩, fun d mem => ?_⟩
    rcases List.mem_cons.mp mem with rfl | mem
    · simp [isNameChar, isLetterOrDigit, ident.1]
    · simp [isNameChar, ident.2 d mem]

theorem isName_spec (named : isName name = true) :
    (∃ c front, name = c :: front ∧ isLetter c = true) ∧ ∀ c ∈ name, isNameChar c = true := by
  rw [isName, Bool.and_eq_true] at named
  obtain ⟨first, second⟩ := named
  obtain ⟨⟨c, front, start, letter⟩, chars⟩ := isIdent_spec first
  have whole := List.takeWhile_append_dropWhile (p := (· != '.')) (l := name)
  constructor
  · rw [start] at whole
    exact ⟨c, _, whole.symm, letter⟩
  · intro d mem
    rw [← whole] at mem
    rcases List.mem_append.mp mem with mem | mem
    · exact chars d mem
    · split at second
      next none => rw [none] at mem; cases mem
      next dot ident rest =>
        have isDot := List.head_dropWhile_not (· != '.') (l := name) (by rw [rest]; simp)
        simp only [rest, List.head_cons] at isDot
        rw [rest] at mem
        rcases List.mem_cons.mp mem with rfl | mem
        · simp only [bne_eq_false_iff_eq] at isDot
          rw [isDot]
          rfl
        · exact (isIdent_spec second).2 d mem

theorem isLetter_spec {c : Char} (letter : isLetter c = true) : isBlank c = false ∧ c ≠ '#' := by
  constructor
  · rw [Bool.eq_false_iff]
    intro blank
    simp only [isBlank, Bool.or_eq_true, beq_iff_eq] at blank
    rcases blank with (rfl | rfl) | rfl <;> revert letter <;> decide
  · rintro rfl
    revert letter
    decide

theorem newline_not_mem (named : isName name = true) : '\n' ∉ name := by
  intro mem
  have char := (isName_spec named).2 _ mem
  revert char
  decide

def setting (name value : Text) : Text := name ++ ' ' :: '=' :: ' ' :: '\'' :: (value ++ ['\''])

theorem readLine_setting (named : isName name = true) : readLine (setting name value) =
    (scanString .text (value ++ ['\''])).bind fun read =>
      if isEnd read.2 then some (some (name, read.1)) else none := by
  obtain ⟨⟨c, front, start, letter⟩, chars⟩ := isName_spec named
  obtain ⟨solid, content⟩ := isLetter_spec letter
  have skip : (setting name value).dropWhile isBlank = setting name value := by
    rw [setting, start, List.cons_append, List.dropWhile_cons_of_neg (by rw [solid]; decide)]
  have more : isEnd (setting name value) = false := by
    rw [isEnd, skip, setting, start, List.cons_append]
    simpa using content
  have front : (setting name value).takeWhile isNameChar = name := by
    rw [setting, List.takeWhile_append_of_pos chars]
    simp [isNameChar, isLetterOrDigit, isLetter]
  have back : (setting name value).dropWhile isNameChar =
      ' ' :: '=' :: ' ' :: '\'' :: (value ++ ['\'']) := by
    rw [setting, List.dropWhile_append_of_pos chars]
    rfl
  rw [readLine, more, skip, readSetting, back, front]
  have equals : List.dropWhile isBlank (' ' :: '=' :: ' ' :: '\'' :: (value ++ ['\''])) =
      '=' :: ' ' :: '\'' :: (value ++ ['\'']) := rfl
  have quote : List.dropWhile isBlank (' ' :: '\'' :: (value ++ ['\''])) =
      '\'' :: (value ++ ['\'']) := rfl
  rw [equals, if_neg Bool.false_ne_true]
  change (if isName name = true then (readValue (List.dropWhile isBlank
    (' ' :: '\'' :: (value ++ ['\''])))).map fun value => (name, value) else none).map some = _
  rw [if_pos named, quote, readValue]
  cases scanString .text (value ++ ['\'']) with
  | none => rfl
  | some read =>
    dsimp only [Option.bind_some]
    split <;> rfl

theorem readLine_setting_iff (named : isName name = true) :
    readLine (setting name value) = some (some (name, value)) ↔ isVerbatim value = true := by
  rw [readLine_setting named, verbatim_iff]
  constructor
  · intro read
    obtain ⟨⟨scanned, rest⟩, scan, done⟩ := Option.bind_eq_some_iff.mp read
    dsimp only at done
    split at done
    · cases done
      exact verbatim_of_scan scan
    · cases done
  · intro verbatim
    rw [scanString_verbatim verbatim]
    rfl

theorem readLine_name {entry : Text × Text} (read : readLine line = some (some entry)) :
    isName entry.1 = true := by
  rw [readLine] at read
  split at read
  · cases read
  · obtain ⟨_, setting, same⟩ := Option.map_eq_some_iff.mp read
    cases same
    rw [readSetting] at setting
    split at setting
    · split at setting
      next named =>
        obtain ⟨value, -, rfl⟩ := Option.map_eq_some_iff.mp setting
        exact named
      next => cases setting
    · cases setting

theorem readLine_setting_name (named : isName name = true) {entry : Option (Text × Text)}
    (read : readLine (setting name value) = some entry) : ∃ value', entry = some (name, value') := by
  rw [readLine_setting named] at read
  obtain ⟨⟨scanned, rest⟩, -, done⟩ := Option.bind_eq_some_iff.mp read
  dsimp only at done
  split at done
  · cases done
    exact ⟨_, rfl⟩
  · cases done

theorem readConf_cons (single : '\n' ∉ line) : readConf (line ++ '\n' :: rest) =
    (readLine line).bind fun entry => (readConf rest).map (entry.toList ++ ·) := by
  rw [readConf, List.splitOn_append_cons_self_of_not_mem single, List.mapM_cons, readConf]
  cases readLine line with
  | none => rfl
  | some entry =>
    cases (rest.splitOn '\n').mapM readLine with
    | none => rfl
    | some entries =>
      cases entry with
      | none => rfl
      | some entry => rfl

theorem mem_of_mapM {α β : Type} {f : α → Option β} {items : List α} {results : List β}
    (done : items.mapM f = some results) : ∀ b ∈ results, ∃ a ∈ items, f a = some b := by
  induction items generalizing results with
  | nil =>
    cases done
    exact fun b mem => by cases mem
  | cons a items ih =>
    rw [List.mapM_cons] at done
    obtain ⟨b, first, done⟩ := Option.bind_eq_some_iff.mp done
    obtain ⟨tail, later, same⟩ := Option.bind_eq_some_iff.mp done
    cases same
    intro d mem
    rcases List.mem_cons.mp mem with rfl | mem
    · exact ⟨a, List.mem_cons_self, first⟩
    · obtain ⟨e, isItem, read⟩ := ih later d mem
      exact ⟨e, List.mem_cons_of_mem _ isItem, read⟩

/-- What is read of a file has names only. -/
theorem readConf_name {text : Text} {entries : List (Text × Text)}
    (read : readConf text = some entries) : ∀ entry ∈ entries, isName entry.1 = true := by
  obtain ⟨lines, each, rfl⟩ := Option.map_eq_some_iff.mp read
  intro entry mem
  obtain ⟨_, isLine, rfl⟩ := List.mem_filterMap.mp mem
  obtain ⟨line, -, readEntry⟩ := mem_of_mapM each _ isLine
  exact readLine_name readEntry

end Lines

/-! ## Files of settings -/

section Settings

variable {settings : List (Text × Text)}

def settingsText (settings : List (Text × Text)) : Text :=
  settings.flatMap fun entry => setting entry.1 entry.2 ++ ['\n']

theorem settingsText_cons (entry : Text × Text) (settings : List (Text × Text)) :
    settingsText (entry :: settings) = setting entry.1 entry.2 ++ '\n' :: settingsText settings := by
  rw [settingsText, List.flatMap_cons, List.append_assoc]
  rfl

theorem newline_not_mem_setting {name value : Text} (named : isName name = true)
    (single : '\n' ∉ value) : '\n' ∉ setting name value := by
  simp [setting, newline_not_mem named, single]

theorem readConf_verbatim
    (verbatim : ∀ entry ∈ settings, isName entry.1 = true ∧ isVerbatim entry.2 = true)
    (single : ∀ entry ∈ settings, '\n' ∉ entry.2) : readConf (settingsText settings) = some settings := by
  induction settings with
  | nil => rfl
  | cons entry settings ih =>
    obtain ⟨named, own⟩ := verbatim entry List.mem_cons_self
    have line := newline_not_mem_setting named (single entry List.mem_cons_self)
    rw [settingsText_cons, readConf_cons line, (readLine_setting_iff named).mpr own,
      ih (fun e mem => verbatim e (List.mem_cons_of_mem _ mem))
        (fun e mem => single e (List.mem_cons_of_mem _ mem))]
    rfl

theorem readConf_lines {entries : List (Text × Text)}
    (named : ∀ entry ∈ settings, isName entry.1 = true)
    (single : ∀ entry ∈ settings, '\n' ∉ entry.2)
    (read : readConf (settingsText settings) = some entries) :
    ∀ entry ∈ settings, ∃ value, (entry.1, value) ∈ entries ∧
      readLine (setting entry.1 entry.2) = some (some (entry.1, value)) := by
  induction settings generalizing entries with
  | nil => exact fun entry mem => by cases mem
  | cons first settings ih =>
    have own := named first List.mem_cons_self
    have line := newline_not_mem_setting own (single first List.mem_cons_self)
    rw [settingsText_cons, readConf_cons line] at read
    obtain ⟨entry, readFirst, rest⟩ := Option.bind_eq_some_iff.mp read
    obtain ⟨tail, readTail, rfl⟩ := Option.map_eq_some_iff.mp rest
    obtain ⟨value, rfl⟩ := readLine_setting_name own readFirst
    intro other mem
    rcases List.mem_cons.mp mem with rfl | mem
    · exact ⟨value, List.mem_append_left _ (List.mem_singleton_self _), readFirst⟩
    · obtain ⟨value', isEntry, readOther⟩ := ih (fun e mem => named e (List.mem_cons_of_mem _ mem))
        (fun e mem => single e (List.mem_cons_of_mem _ mem)) readTail other mem
      exact ⟨value', List.mem_append_right _ isEntry, readOther⟩

/-- A file of settings with different names reads as these settings exactly if each has a name
and a verbatim value. -/
theorem readConf_perm_iff (nodup : (settings.map Prod.fst).Nodup)
    (single : ∀ entry ∈ settings, '\n' ∉ entry.2) :
    (∃ entries, readConf (settingsText settings) = some entries ∧ entries.Perm settings) ↔
      ∀ entry ∈ settings, isName entry.1 = true ∧ isVerbatim entry.2 = true := by
  constructor
  · rintro ⟨entries, read, perm⟩
    have named : ∀ entry ∈ settings, isName entry.1 = true :=
      fun entry mem => readConf_name read entry (perm.mem_iff.mpr mem)
    intro entry mem
    obtain ⟨value, isEntry, line⟩ := readConf_lines named single read entry mem
    have same := List.inj_on_of_nodup_map nodup (perm.mem_iff.mp isEntry) mem rfl
    have own := congrArg Prod.snd same
    rw [← readLine_setting_iff (named entry mem), line, ← own]
    exact ⟨named entry mem, rfl⟩
  · intro verbatim
    exact ⟨settings, readConf_verbatim verbatim single, List.Perm.refl _⟩

end Settings

end ConfFile
