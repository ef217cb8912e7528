import Mathlib.Data.List.Induction
import Mathlib.Data.List.TakeWhile
import Backrest.ConfFile

/-!
# Files of plain lines

A file whose lines are comments, blank lines and settings `name = 'value'`. Blanks may be
taken off its ends, lines may be made comments and another such file appended: the settings
are those of the lines that are left. The last setting of a name is the one in effect.
-/

namespace ConfLines

open ConfFile

inductive Line : Text → Option (Text × Text) → Prop where
  | blank {line : Text} (blank : ∀ c ∈ line, isBlank c = true) : Line line none
  | comment {pad text : Text} (blank : ∀ c ∈ pad, isBlank c = true) : Line (pad ++ '#' :: text) none
  | setting {name body value : Text} (named : isName name = true)
      (scan : scanString .text (body ++ ['\'']) = some (value, [])) :
      Line (setting name body) (some (name, value))

/-- Such lines and the settings they hold, in order. -/
inductive Lines : List Text → List (Text × Text) → Prop where
  | nil : Lines [] []
  | cons {line : Text} {entry : Option (Text × Text)} {lines : List Text}
      {entries : List (Text × Text)} (isLine : Line line entry) (others : Lines lines entries) :
      Lines (line :: lines) (entry.toList ++ entries)

def Conf (text : Text) (entries : List (Text × Text)) : Prop := Lines (text.splitOn '\n') entries

def IsConf (text : Text) : Prop := ∀ line ∈ text.splitOn '\n', ∃ entry, Line line entry

def lastValue (entries : List (Text × Text)) (name : Text) : Option Text := entries.reverse.lookup name

section Line

variable {line : Text} {entry : Option (Text × Text)}

theorem isEnd_blank (blank : ∀ c ∈ line, isBlank c = true) : isEnd line = true := by
  rw [isEnd, List.dropWhile_eq_nil_iff.mpr blank]

theorem isEnd_comment {pad text : Text} (blank : ∀ c ∈ pad, isBlank c = true) :
    isEnd (pad ++ '#' :: text) = true := by
  rw [isEnd, List.dropWhile_append_of_pos blank]
  rfl

theorem Line.readLine (isLine : Line line entry) : ConfFile.readLine line = some entry := by
  cases isLine with
  | blank blank => rw [ConfFile.readLine, isEnd_blank blank, if_pos rfl]
  | comment blank => rw [ConfFile.readLine, isEnd_comment blank, if_pos rfl]
  | setting named scan =>
    rw [readLine_setting named, scan]
    rfl

theorem ne_of_blank {c d : Char} (blank : isBlank c = true) (solid : isBlank d = false) : d ≠ c := by
  rintro rfl
  exact absurd blank (by simp [solid])

theorem Line.of_cons {c : Char} (blank : isBlank c = true) (isLine : Line (c :: line) entry) :
    Line line entry := by
  generalize whole : c :: line = text at isLine
  cases isLine with
  | blank all =>
    rw [← whole] at all
    exact .blank fun d mem => all d (List.mem_cons_of_mem _ mem)
  | @comment pad text all =>
    cases pad with
    | nil => exact absurd (List.cons.inj whole).1.symm (ne_of_blank blank rfl)
    | cons d pad =>
      obtain ⟨-, rfl⟩ := List.cons.inj whole
      exact .comment fun e mem => all e (List.mem_cons_of_mem _ mem)
  | setting named =>
    obtain ⟨d, front, rfl, letter⟩ := (isName_spec named).1
    exact absurd (List.cons.inj whole).1.symm (ne_of_blank blank (isLetter_spec letter).1)

theorem Line.of_concat {c : Char} (blank : isBlank c = true) (isLine : Line (line ++ [c]) entry) :
    Line line entry := by
  generalize whole : line ++ [c] = text at isLine
  cases isLine with
  | blank all =>
    rw [← whole] at all
    exact .blank fun d mem => all d (List.mem_append_left _ mem)
  | @comment pad text all =>
    rcases List.eq_nil_or_concat text with rfl | ⟨text, d, rfl⟩
    · obtain ⟨-, same⟩ := List.append_inj' whole rfl
      exact absurd (List.cons.inj same).1.symm (ne_of_blank blank rfl)
    · rw [List.concat_eq_append, ← List.cons_append, ← List.append_assoc] at whole
      obtain ⟨rfl, -⟩ := List.append_inj' whole rfl
      exact .comment all
  | @setting name body value named =>
    have last : ConfFile.setting name body = (name ++ ' ' :: '=' :: ' ' :: '\'' :: body) ++ ['\''] := by
      simp [ConfFile.setting]
    rw [last] at whole
    obtain ⟨-, same⟩ := List.append_inj' whole rfl
    exact absurd (List.cons.inj same).1.symm (ne_of_blank blank rfl)

end Line

section Lines

variable {lines : List Text} {entries : List (Text × Text)}

theorem exists_lines (each : ∀ line ∈ lines, ∃ entry, Line line entry) : ∃ entries, Lines lines entries := by
  induction lines with
  | nil => exact ⟨[], .nil⟩
  | cons line lines ih =>
    obtain ⟨entry, isLine⟩ := each line List.mem_cons_self
    obtain ⟨entries, others⟩ := ih fun l mem => each l (List.mem_cons_of_mem _ mem)
    exact ⟨_, .cons isLine others⟩

theorem Lines.readLine (isLines : Lines lines entries) :
    (lines.mapM ConfFile.readLine).map (List.filterMap id) = some entries := by
  induction isLines with
  | nil => rfl
  | @cons line entry lines entries isLine _ ih =>
    obtain ⟨found, read, same⟩ := Option.map_eq_some_iff.mp ih
    rw [List.mapM_cons, isLine.readLine, read, ← same]
    cases entry <;> rfl

theorem Lines.append {lines' : List Text} {entries' : List (Text × Text)}
    (first : Lines lines entries) (next : Lines lines' entries') :
    Lines (lines ++ lines') (entries ++ entries') := by
  induction first with
  | nil => exact next
  | cons isLine _ ih =>
    rw [List.append_assoc]
    exact .cons isLine ih

theorem Lines.of_append {lines' : List Text} (whole : Lines (lines ++ lines') entries) :
    ∃ first next, entries = first ++ next ∧ Lines lines first ∧ Lines lines' next := by
  induction lines generalizing entries with
  | nil => exact ⟨[], entries, rfl, .nil, whole⟩
  | cons line lines ih =>
    cases whole with
    | cons isLine others =>
      obtain ⟨first, next, rfl, front, back⟩ := ih others
      exact ⟨_, next, (List.append_assoc _ _ _).symm, .cons isLine front, back⟩

theorem Lines.map {change : Text → Text} {keep : Text → Bool}
    (each : ∀ line entry, Line line entry → Line (change line) (entry.filter fun e => keep e.1))
    (isLines : Lines lines entries) :
    Lines (lines.map change) (entries.filter fun e => keep e.1) := by
  induction isLines with
  | nil => exact .nil
  | @cons line entry lines entries isLine _ ih =>
    have same : (entry.toList ++ entries).filter (fun e => keep e.1) =
        (entry.filter fun e => keep e.1).toList ++ entries.filter fun e => keep e.1 := by
      rw [List.filter_append]
      cases entry with
      | none => rfl
      | some e => cases kept : keep e.1 <;> simp [kept, Option.filter_some]
    rw [List.map_cons, same]
    exact .cons (each line entry isLine) ih

end Lines

section Conf

variable {text s t : Text} {entries : List (Text × Text)}

theorem IsConf.exists_conf (isConf : IsConf text) : ∃ entries, Conf text entries := exists_lines isConf

theorem Conf.readConf (conf : Conf text entries) : ConfFile.readConf text = some entries := conf.readLine

theorem conf_line (single : '\n' ∉ text) :
    Conf text entries ↔ ∃ entry, Line text entry ∧ entries = entry.toList := by
  rw [Conf, List.splitOn_eq_singleton single]
  constructor
  · intro lines
    cases lines with
    | cons isLine others =>
      cases others
      exact ⟨_, isLine, List.append_nil _⟩
  · rintro ⟨entry, isLine, rfl⟩
    rw [← List.append_nil entry.toList]
    exact .cons isLine .nil

theorem conf_append : Conf (s ++ '\n' :: t) entries ↔
    ∃ first next, entries = first ++ next ∧ Conf s first ∧ Conf t next := by
  rw [Conf, List.splitOn_append_cons_self]
  constructor
  · exact Lines.of_append
  · rintro ⟨first, next, rfl, front, back⟩
    exact front.append back

theorem conf_nil : Conf [] [] := (conf_line List.not_mem_nil).mpr ⟨none, .blank nofun, rfl⟩

theorem conf_nil_iff : Conf [] entries ↔ entries = [] := by
  constructor
  · intro conf
    exact (Option.some.inj (conf_nil.readConf.symm.trans conf.readConf)).symm
  · rintro rfl
    exact conf_nil

theorem newline_not_mem_line {line : Text} (mem : line ∈ text.splitOn '\n') : '\n' ∉ line := by
  induction text generalizing line with
  | nil =>
    rw [List.splitOn_nil, List.mem_singleton] at mem
    rw [mem]
    exact List.not_mem_nil
  | cons c text ih =>
    rw [List.splitOn_cons_eq_if_modifyHead] at mem
    split at mem
    next =>
      rcases List.mem_cons.mp mem with rfl | mem
      · exact List.not_mem_nil
      · exact ih mem
    next other =>
      have isOther : c ≠ '\n' := by simpa using other
      obtain ⟨first, others, lines⟩ := List.exists_cons_of_ne_nil (List.splitOn_ne_nil '\n' text)
      rw [lines] at ih mem
      rcases List.mem_cons.mp mem with rfl | mem
      · rw [List.mem_cons, not_or]
        exact ⟨isOther.symm, ih List.mem_cons_self⟩
      · exact ih (List.mem_cons_of_mem _ mem)

theorem Conf.map {change : Text → Text} {keep : Text → Bool}
    (each : ∀ line entry, Line line entry → Line (change line) (entry.filter fun e => keep e.1))
    (single : ∀ line, '\n' ∉ line → '\n' ∉ change line) (conf : Conf text entries) :
    Conf (['\n'].intercalate ((text.splitOn '\n').map change)) (entries.filter fun e => keep e.1) := by
  have lines : ∀ line ∈ (text.splitOn '\n').map change, '\n' ∉ line := by
    intro line mem
    obtain ⟨old, isOld, rfl⟩ := List.mem_map.mp mem
    exact single old (newline_not_mem_line isOld)
  rw [Conf, List.splitOn_intercalate '\n' lines (by simp)]
  exact Lines.map each conf

/-- A character that may be taken off an end of a file. -/
def IsSpace (c : Char) : Prop := isBlank c = true ∨ c = '\n'

theorem Conf.of_cons {c : Char} (space : IsSpace c) (conf : Conf (c :: text) entries) :
    Conf text entries := by
  rcases space with blank | rfl
  · have other : c ≠ '\n' := (ne_of_blank blank rfl).symm
    by_cases mem : '\n' ∈ text
    · obtain ⟨line, rest, rfl, single⟩ := List.eq_append_cons_of_mem mem
      rw [← List.cons_append, conf_append] at conf
      obtain ⟨first, next, rfl, front, back⟩ := conf
      rw [conf_line (by simp [single, other.symm])] at front
      obtain ⟨entry, isLine, rfl⟩ := front
      exact conf_append.mpr ⟨_, _, rfl, (conf_line single).mpr ⟨_, isLine.of_cons blank, rfl⟩, back⟩
    · rw [conf_line (by simp [mem, other.symm])] at conf
      obtain ⟨entry, isLine, same⟩ := conf
      exact (conf_line mem).mpr ⟨entry, isLine.of_cons blank, same⟩
  · obtain ⟨first, next, rfl, front, back⟩ := (@conf_append [] text entries).mp conf
    rw [conf_nil_iff.mp front]
    exact back

theorem exists_last_line (mem : '\n' ∈ text) : ∃ s line, text = s ++ '\n' :: line ∧ '\n' ∉ line := by
  obtain ⟨line, rest, same, single⟩ := List.eq_append_cons_of_mem (List.mem_reverse.mpr mem)
  refine ⟨rest.reverse, line.reverse, ?_, by simpa using single⟩
  rw [← List.reverse_reverse text, same]
  simp

theorem Conf.of_concat {c : Char} (space : IsSpace c) (conf : Conf (text ++ [c]) entries) :
    Conf text entries := by
  rcases space with blank | rfl
  · have other : c ≠ '\n' := (ne_of_blank blank rfl).symm
    by_cases mem : '\n' ∈ text
    · obtain ⟨s, line, rfl, single⟩ := exists_last_line mem
      rw [List.append_assoc, List.cons_append, conf_append] at conf
      obtain ⟨first, next, rfl, front, back⟩ := conf
      rw [conf_line (by simp [single, other.symm])] at back
      obtain ⟨entry, isLine, rfl⟩ := back
      exact conf_append.mpr ⟨_, _, rfl, front, (conf_line single).mpr ⟨_, isLine.of_concat blank, rfl⟩⟩
    · rw [conf_line (by simp [mem, other.symm])] at conf
      obtain ⟨entry, isLine, same⟩ := conf
      exact (conf_line mem).mpr ⟨entry, isLine.of_concat blank, same⟩
  · obtain ⟨first, next, rfl, front, back⟩ := conf_append.mp conf
    rw [conf_nil_iff.mp back, List.append_nil]
    exact front

section Trim

variable {space : Char → Bool} (spaces : ∀ c, space c = true → IsSpace c)

include spaces

theorem Conf.dropWhile (conf : Conf text entries) : Conf (text.dropWhile space) entries := by
  induction text with
  | nil => exact conf
  | cons c text ih =>
    rw [List.dropWhile_cons]
    split
    next isSpace => exact ih (conf.of_cons (spaces c isSpace))
    next => exact conf

theorem Conf.dropWhile_reverse (conf : Conf text entries) :
    Conf (text.reverse.dropWhile space).reverse entries := by
  induction text using List.reverseRecOn with
  | nil => exact conf
  | append_singleton text c ih =>
    rw [List.reverse_append, List.reverse_singleton, List.singleton_append, List.dropWhile_cons]
    split
    next isSpace => exact ih (conf.of_concat (spaces c isSpace))
    next => simpa using conf

end Trim

theorem Conf.settings {settings : List (Text × Text)}
    (plain : ∀ entry ∈ settings, isName entry.1 = true ∧ isVerbatim entry.2 = true)
    (single : ∀ entry ∈ settings, '\n' ∉ entry.2) : Conf (settingsText settings) settings := by
  induction settings with
  | nil => exact conf_nil
  | cons entry settings ih =>
    obtain ⟨named, verbatim⟩ := plain entry List.mem_cons_self
    have line := newline_not_mem_setting named (single entry List.mem_cons_self)
    rw [settingsText_cons]
    refine conf_append.mpr ⟨[entry], settings, rfl, (conf_line line).mpr ⟨some entry, ?_, rfl⟩, ?_⟩
    · exact .setting named (scanString_verbatim (verbatim_iff.mp verbatim))
    · exact ih (fun e mem => plain e (List.mem_cons_of_mem _ mem))
        (fun e mem => single e (List.mem_cons_of_mem _ mem))

end Conf

section LastValue

variable {entries : List (Text × Text)} {name : Text}

theorem lastValue_append (first next : List (Text × Text)) :
    lastValue (first ++ next) name = (lastValue next name).or (lastValue first name) := by
  rw [lastValue, List.reverse_append, List.lookup_append]
  rfl

theorem lastValue_filter {keep : Text → Bool} :
    lastValue (entries.filter fun e => keep e.1) name =
      if keep name = true then lastValue entries name else none := by
  rw [lastValue, lastValue, ← List.filter_reverse]
  induction entries.reverse with
  | nil => simp
  | cons e rest ih =>
    obtain ⟨key, value⟩ := e
    by_cases same : name = key
    · subst same
      by_cases kept : keep name = true
      · rw [List.filter_cons_of_pos (by simpa using kept), if_pos kept]
        simp
      · rw [List.filter_cons_of_neg (by simpa using kept), ih, if_neg kept, if_neg kept]
    · have other : (name == key) = false := by simpa using same
      have rest' : List.lookup name ((key, value) :: rest) = List.lookup name rest := by
        rw [List.lookup_cons, other]
      rw [rest', ← ih]
      by_cases kept : keep key = true
      · rw [List.filter_cons_of_pos (by simpa using kept), List.lookup_cons, other]
      · rw [List.filter_cons_of_neg (by simpa using kept)]

end LastValue

end ConfLines
