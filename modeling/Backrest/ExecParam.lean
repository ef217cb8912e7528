import Backrest.ShellWords
import Backrest.Text

/-!
# Parameters of another process

The options of a command are turned into parameters for another process. A value with a
space is put in double quotes when the parameters are meant for a shell, and nothing in a
value is escaped.
-/

namespace ExecParam

open Text ShellWords

inductive ConfigSource where
  | default
  | param
  | config
  deriving DecidableEq

/-- The value of an option. One value is kept as `cfgOptionDisplayVar` shows it. -/
inductive OptionValue where
  | bool (value : Bool)
  | keyValue (list : List (Str × Str))
  | list (list : List Str)
  | one (display : Str)

def isNamePlain (name : Str) : Bool := name.all fun c => c.isLower || c.isDigit || c == '-'

/-- An option at one index, as it is set for the command that runs and defined for the command
the parameters are for. -/
structure ExecOption where
  name : Str
  /-- The names are those of a fixed table. -/
  plain : isNamePlain name = true
  commandValid : Bool := true
  secure : Bool := false
  repoCipherType : Bool := false
  valid : Bool := true
  negate : Bool := false
  reset : Bool := false
  source : ConfigSource := .default
  value : Option OptionValue := none

structure Param where
  front : Str
  value : Option Str := none

def optionFront (name : Str) : Str := '-' :: '-' :: name

def valueList : OptionValue → List Str
  | .bool _ => []
  | .keyValue list => list.map fun pair => pair.1 ++ '=' :: pair.2
  | .list list => list
  | .one display => [display]

def valueParam (name : Str) (value : OptionValue) : List Param :=
  match value with
  | .bool true => [{ front := optionFront name }]
  | .bool false => [{ front := optionFront ("no-".toList ++ name) }]
  | value => (valueList value).map fun item => ⟨optionFront name ++ ['='], some item⟩

/-- The value that is set, when there is no replacement. -/
def currentValue (option : ExecOption) : Option OptionValue :=
  if option.valid = false then none
  else if option.negate = true then some (.bool false)
  else if option.source ≠ .default then option.value
  else none

def execOption (optionReplace : List (Str × Option OptionValue)) (isLocal : Bool)
    (option : ExecOption) : List Param :=
  if option.commandValid = false ∨ option.secure = true ∨ option.repoCipherType = true then []
  else
    match optionReplace.find? (fun pair => pair.1 = option.name) with
    -- If the key exists but its value is NULL then skip this option
    | some (_, none) => []
    | some (_, some value) => valueParam option.name value
    | none =>
      match currentValue option with
      | none =>
        if option.valid = true ∧ option.reset = true then
          [{ front := optionFront ("reset-".toList ++ option.name) }]
        else []
      | some value =>
        if isLocal = false ∨ option.source = .param then valueParam option.name value else []

def execParams (optionList : List ExecOption) (commandName : Str)
    (optionReplace : List (Str × Option OptionValue)) (isLocal : Bool) : List Param :=
  optionList.flatMap (execOption optionReplace isLocal) ++ [{ front := commandName }]

def paramText (quote : Bool) (param : Param) : Str :=
  match param.value with
  | none => param.front
  | some value =>
    param.front ++ if quote = true ∧ ' ' ∈ value then '"' :: value ++ ['"'] else value

def cfgExecParam (optionList : List ExecOption) (commandName : Str)
    (optionReplace : List (Str × Option OptionValue)) (isLocal quote : Bool) : List Str :=
  (execParams optionList commandName optionReplace isLocal).map (paramText quote)

/-! ## The parameters as words of a shell -/

section Shell

variable {params : List Param} {param : Param} {value rest : Str}

/-- A parameter that starts as the name of an option or of a command does. -/
structure Fronted (param : Param) : Prop where
  start : ∃ c front, param.front = c :: front ∧ c ≠ '#'
  plain : ∀ c ∈ param.front, isPlain c = true

/-- A value is one word: nothing in it is expanded or quoted, and it has a space that makes it
quoted or nothing that would end the word. -/
def isWord (value : Str) : Bool :=
  value.all (fun c => !(isExpansion c || isQuote c)) &&
    (value.contains ' ' || value.all isPlain)

theorem isWord_iff : isWord value = true ↔
    (∀ c ∈ value, isExpansion c = false ∧ isQuote c = false) ∧
      (' ' ∈ value ∨ ∀ c ∈ value, isPlain c = true) := by
  simp [isWord]

theorem words_front (fronted : Fronted param) (rest : Str) :
    words (param.front ++ rest) = wordsFrom .bare (some param.front) rest := by
  obtain ⟨⟨c, front, same, start⟩, plain⟩ := fronted
  rw [same] at plain ⊢
  rw [List.cons_append, words_cons (plain c List.mem_cons_self) start,
    wordsFrom_append fun d mem => plain d (List.mem_cons_of_mem _ mem), List.singleton_append]

theorem words_param (fronted : Fronted param) (word : ∀ value ∈ param.value, isWord value = true)
    (rest : Str) : words (paramText true param ++ ' ' :: rest) =
      (words rest).map (paramText false param :: ·) := by
  rw [paramText, paramText]
  cases isValue : param.value with
  | none => rw [words_front fronted, wordsFrom_blank rfl]
  | some value =>
    obtain ⟨closed, quoted⟩ := isWord_iff.mp (word value isValue)
    simp only [true_and, Bool.false_eq_true, false_and, if_false, List.append_assoc]
    rw [words_front fronted]
    by_cases space : ' ' ∈ value
    · have inside : ∀ c ∈ value, c ≠ '"' ∧ c ≠ '\\' ∧ isExpansion c = false := by
        intro c mem
        obtain ⟨expansion, quote⟩ := closed c mem
        have unquoted := unquoted_iff.mp quote
        exact ⟨unquoted.1, unquoted.2.2, expansion⟩
      rw [if_pos space, List.cons_append, List.cons_append, wordsFrom_quote, List.append_assoc, List.singleton_append,
        wordsFrom_double inside, wordsFrom_blank rfl]
    · rw [if_neg space, wordsFrom_append (quoted.resolve_left space), wordsFrom_blank rfl]

theorem isWord_of_words {xs : List Str} (fronted : Fronted param)
    (unquoted : ∀ c ∈ value, isQuote c = false) (isValue : param.value = some value)
    (read : words (paramText true param ++ ' ' :: rest) = some (paramText false param :: xs)) :
    isWord value = true := by
  rw [paramText, paramText, isValue] at read
  simp only [true_and, Bool.false_eq_true, false_and, if_false, List.append_assoc] at read
  rw [words_front fronted] at read
  rw [isWord_iff]
  by_cases space : ' ' ∈ value
  · rw [if_pos space, List.cons_append, List.cons_append, wordsFrom_quote, List.append_assoc] at read
    have closed := closed_of_double (fun c mem => by
      have each := unquoted_iff.mp (unquoted c mem)
      exact ⟨each.1, each.2.2⟩) read
    exact ⟨fun c mem => ⟨closed c mem, unquoted c mem⟩, .inl space⟩
  · rw [if_neg space] at read
    have plain := plain_of_word unquoted read
    exact ⟨fun c mem => ⟨(plain_iff.mp (plain c mem)).2.2.1, unquoted c mem⟩, .inr plain⟩

def paramsText (params : List Param) (tail : Str) : Str :=
  params.foldr (fun param rest => paramText true param ++ ' ' :: rest) tail

theorem words_params {tail : Str} (fronted : ∀ param ∈ params, Fronted param)
    (word : ∀ param ∈ params, ∀ value ∈ param.value, isWord value = true) :
    words (paramsText params tail) = (words tail).map (params.map (paramText false) ++ ·) := by
  induction params with
  | nil =>
    cases read : words tail with
    | none => exact read
    | some ws => exact read
  | cons param params ih =>
    rw [paramsText, List.foldr_cons, words_param (fronted param List.mem_cons_self)
      (word param List.mem_cons_self), ← paramsText,
      ih (fun p mem => fronted p (List.mem_cons_of_mem _ mem))
        (fun p mem => word p (List.mem_cons_of_mem _ mem)), Option.map_map]
    rfl

theorem isWord_of_words_params {tail : Str} {ws : List Str} (fronted : ∀ param ∈ params, Fronted param)
    (unquoted : ∀ param ∈ params, ∀ value ∈ param.value, ∀ c ∈ value, isQuote c = false)
    (read : words (paramsText params tail) = some (params.map (paramText false) ++ ws)) :
    ∀ param ∈ params, ∀ value ∈ param.value, isWord value = true := by
  induction params with
  | nil => exact fun param mem => by cases mem
  | cons param params ih =>
    have own := fronted param List.mem_cons_self
    have word : ∀ value ∈ param.value, isWord value = true := fun value isValue =>
      isWord_of_words own (unquoted param List.mem_cons_self value isValue) isValue read
    have whole := words_param own word (paramsText params tail)
    rw [paramsText, List.foldr_cons, ← paramsText, whole] at read
    obtain ⟨tail', readTail, same⟩ := Option.map_eq_some_iff.mp read
    obtain ⟨-, rfl⟩ := List.cons.inj same
    have others := ih (fun p mem => fronted p (List.mem_cons_of_mem _ mem))
      (fun p mem => unquoted p (List.mem_cons_of_mem _ mem)) readTail
    intro p mem
    rcases List.mem_cons.mp mem with rfl | mem
    · exact word
    · exact others p mem

end Shell

/-! ## The fronts of the parameters -/

/-- The characters that do not stand for themselves. -/
def specials : Str := " \t\"'\\$\x60;&|<>()\n".toList

theorem mem_specials {c : Char} (special : isPlain c = false) : c ∈ specials := by
  simp only [isPlain, Bool.not_eq_false', Bool.or_eq_true, isBlank, isQuote, isExpansion, isOperator,
    beq_iff_eq, decide_eq_true_eq, List.mem_cons, List.not_mem_nil, or_false] at special
  have all : specials = [' ', '\t', '"', '\'', '\\', '$', '\x60', ';', '&', '|', '<', '>', '(', ')',
    '\n'] := rfl
  rw [all]
  simp only [List.mem_cons, List.not_mem_nil, or_false]
  tauto

theorem plain_of_namePlain {name : Str} (plain : isNamePlain name = true) :
    ∀ c ∈ name, isPlain c = true := by
  have none : specials.all (fun c => !(c.isLower || c.isDigit || c == '-')) = true := by decide
  intro c mem
  rw [isNamePlain, List.all_eq_true] at plain
  by_contra special
  have own := List.all_eq_true.mp none c (mem_specials (Bool.eq_false_iff.mpr special))
  rw [plain c mem] at own
  cases own

theorem fronted_option {name : Str} (plain : isNamePlain name = true) {value : Option Str} :
    Fronted ⟨optionFront name, value⟩ ∧ Fronted ⟨optionFront name ++ ['='], value⟩ := by
  have each := plain_of_namePlain plain
  refine ⟨⟨⟨'-', _, rfl, by decide⟩, ?_⟩, ⟨⟨'-', _, rfl, by decide⟩, ?_⟩⟩
  · intro c mem
    rcases List.mem_cons.mp mem with rfl | mem
    · rfl
    rcases List.mem_cons.mp mem with rfl | mem
    · rfl
    · exact each c mem
  · intro c mem
    rcases List.mem_cons.mp mem with rfl | mem
    · rfl
    rcases List.mem_cons.mp mem with rfl | mem
    · rfl
    rcases List.mem_append.mp mem with mem | mem
    · exact each c mem
    · rw [List.mem_singleton.mp mem]
      rfl

theorem namePlain_append {front name : Str} (first : isNamePlain front = true)
    (second : isNamePlain name = true) : isNamePlain (front ++ name) = true := by
  rw [isNamePlain, List.all_append, Bool.and_eq_true]
  exact ⟨first, second⟩

theorem valueParam_fronted {name : Str} (plain : isNamePlain name = true) (value : OptionValue) :
    ∀ param ∈ valueParam name value, Fronted param := by
  intro param mem
  rw [valueParam.eq_def] at mem
  split at mem
  · rw [List.mem_singleton.mp mem]
    exact (fronted_option plain).1
  · rw [List.mem_singleton.mp mem]
    exact (fronted_option (namePlain_append (by decide) plain)).1
  · obtain ⟨item, -, rfl⟩ := List.mem_map.mp mem
    exact (fronted_option plain).2

theorem execParams_fronted {optionList : List ExecOption} {commandName : Str}
    {optionReplace : List (Str × Option OptionValue)} {isLocal : Bool}
    (command : Fronted { front := commandName }) :
    ∀ param ∈ execParams optionList commandName optionReplace isLocal, Fronted param := by
  intro param mem
  rcases List.mem_append.mp mem with mem | mem
  · obtain ⟨option, -, mem⟩ := List.mem_flatMap.mp mem
    rw [execOption] at mem
    split at mem
    · cases mem
    split at mem
    · cases mem
    · exact valueParam_fronted option.plain _ param mem
    split at mem
    · split at mem
      · rw [List.mem_singleton.mp mem]
        exact (fronted_option (namePlain_append (by decide) option.plain)).1
      · cases mem
    · split at mem
      · exact valueParam_fronted option.plain _ param mem
      · cases mem
  · rwa [List.mem_singleton.mp mem]

end ExecParam
