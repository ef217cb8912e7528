import Backrest.ArchiveAsync
import Backrest.ConfLines
import Backrest.RecoveryConf
import Backrest.UnloggedRelations

/-!
# Recovery settings in postgresql.auto.conf

The settings of a restore are appended to the file that the restored cluster has, after its
lines with a recovery target were made comments. Each restore works on the file that the
last one left.
-/

namespace RecoveryAutoConf

open Text Effects RegExp ConfFile ConfLines RecoveryConf
open ArchiveAsync (strTrim isSpace)
open UnloggedRelations (literal)

section Code

/-- The names of the settings that could interfere with another recovery. -/
def recoveryTargets : List Str :=
  ["recovery_target".toList, "recovery_target_action".toList, "recovery_target_inclusive".toList,
    "recovery_target_lsn".toList, "recovery_target_name".toList, "recovery_target_time".toList,
    "recovery_target_timeline".toList, "recovery_target_xid".toList]

def blanksExp : Exp Char := .many (.one fun c => c = '\t' || c = ' ')

/-- The expression has no end, so anything may follow. -/
def recoveryExp : Exp Char :=
  .seq blanksExp
    (.seq (recoveryTargets.foldr (fun name others => .either (literal name) others) .never)
      (.seq blanksExp (.seq (literal ['=']) (.many (.one fun _ => true)))))

structure PgPath where
  autoConf : Option Str
  standbySignal : Bool := false
  recoverySignal : Bool := false

def removeLine (restoreLabel line : Str) : Str :=
  if regExpMatch recoveryExp line = true then
    "# Removed by pgBackRest restore on ".toList ++ restoreLabel ++ " # ".toList ++ line
  else line

/-- The content that is left of the file. -/
def oldContent (option : RecoveryOption) (restoreLabel : Str) (autoConf : Option Str) : Str :=
  match autoConf with
  | none => []
  | some autoConf =>
    let content := strLstJoin ((strLstNewSplit '\n' autoConf).map (removeLine restoreLabel)) ['\n']
    -- A blank line will be between old and new settings
    if option.type ≠ .none then strTrim content ++ "\n\n".toList else content

def standbyMode : Str := "standby_mode".toList

def standbyModeError : Error :=
  ⟨.optionInvalidError, ("'standby_mode' setting is not valid for PostgreSQL >= 12\n" ++
    "HINT: use --type=standby instead of --recovery-option=standby_mode=on.").toList⟩

def recoveryOptionKey (option : RecoveryOption) : List Str :=
  (RestoreMap.kvKeyList option.recoveryOption).map fun key => strReplaceChr key '-' '_'

def newContent (option : RecoveryOption) (pgVersion : Nat) (restoreLabel : Str) : Except Error Str :=
  if option.type ≠ .none then
    if standbyMode ∈ recoveryOptionKey option then throw standbyModeError
    else restoreRecoveryConf option pgVersion restoreLabel
  else return []

def restoreRecoveryWriteAutoConf (option : RecoveryOption) (pgVersion : Nat) (restoreLabel : Str)
    (pgPath : PgPath) : Except Error PgPath := do
  let content ← newContent option pgVersion restoreLabel
  let written := { pgPath with
    autoConf := some (oldContent option restoreLabel pgPath.autoConf ++ content) }
  if option.type = .standby then return { written with standbySignal := true }
  else return { written with recoverySignal := true }

end Code

/-! ## The lines that are made comments -/

section Lines

variable {name body restoreLabel : Str}

theorem matches_literal {s t : Str} : Matches (literal s) t ↔ t = s := by
  induction s generalizing t with
  | nil => exact matches_empty
  | cons c s ih =>
    rw [literal, Exp.each, matches_seq]
    constructor
    · rintro ⟨first, rest, isFirst, isRest, rfl⟩
      obtain ⟨a, same, rfl⟩ := matches_one.mp isFirst
      rw [ih.mp isRest, of_decide_eq_true same]
      rfl
    · rintro rfl
      exact ⟨[c], s, matches_one.mpr ⟨c, by simp, rfl⟩, ih.mpr rfl, rfl⟩

theorem matches_names {names : List Str} {s : Str} :
    Matches (names.foldr (fun name others => .either (literal name) others) .never) s ↔ s ∈ names := by
  induction names with
  | nil => exact iff_of_false not_matches_never List.not_mem_nil
  | cons name names ih => rw [List.foldr_cons, matches_either, matches_literal, ih, List.mem_cons]

theorem matches_any (s : Str) : Matches (.many (.one fun _ => true)) s := by
  induction s with
  | nil => exact .none
  | cons c s ih => exact .more (s := [c]) (.one rfl) ih

def IsPad (pad : Str) : Prop := ∀ c ∈ pad, c = '\t' ∨ c = ' '

theorem isPad_of_matches {pad : Str} (h : Matches blanksExp pad) : IsPad pad := by
  intro c mem
  simpa using h.within (P := fun c => (c = '\t' || c = ' ') = true) (fun _ holds => holds) c mem

theorem takeWhile_name {c : Char} (chars : ∀ d ∈ name, isNameChar d = true)
    (stop : isNameChar c = false) (rest : Str) : (name ++ c :: rest).takeWhile isNameChar = name := by
  rw [List.takeWhile_append_of_pos chars, List.takeWhile_cons_of_neg (by simp [stop]),
    List.append_nil]

theorem recoveryTargets_isName : ∀ name ∈ recoveryTargets, isName name = true := by decide +kernel

theorem regExpMatch_setting (named : isName name = true) :
    regExpMatch recoveryExp (setting name body) = true ↔ name ∈ recoveryTargets := by
  obtain ⟨⟨c, front, start, letter⟩, chars⟩ := isName_spec named
  rw [regExpMatch_iff, recoveryExp, matches_seq]
  constructor
  · rintro ⟨pad, afterPad, isPad, more, whole⟩
    obtain ⟨target, afterTarget, isTarget, more', rfl⟩ := matches_seq.mp more
    obtain ⟨pad', back, isPad', final, rfl⟩ := matches_seq.mp more'
    obtain ⟨equals, rest, isEquals, -, rfl⟩ := matches_seq.mp final
    have listed := matches_names.mp isTarget
    rw [matches_literal.mp isEquals] at whole
    have noPad : pad = [] := by
      cases pad with
      | nil => rfl
      | cons d pad =>
        exfalso
        rw [setting, start] at whole
        obtain ⟨rfl, -⟩ := List.cons.inj whole
        rcases isPad_of_matches isPad c List.mem_cons_self with rfl | rfl <;>
          exact absurd letter (by decide)
    subst noPad
    -- the name and the target both end before a character that no name has
    have ends : ∃ d rest', pad' ++ (['='] ++ rest) = d :: rest' ∧ isNameChar d = false := by
      cases pad' with
      | nil => exact ⟨'=', rest, rfl, by decide⟩
      | cons d pad' =>
        refine ⟨d, _, rfl, ?_⟩
        rcases isPad_of_matches isPad' d List.mem_cons_self with rfl | rfl <;> decide
    obtain ⟨d, rest', same, stop⟩ := ends
    have front := congrArg (List.takeWhile isNameChar) whole
    rw [setting, takeWhile_name chars (by decide), List.nil_append, same,
      takeWhile_name (isName_spec (recoveryTargets_isName target listed)).2 stop] at front
    rw [front]
    exact listed
  · intro listed
    refine ⟨[], setting name body, .none, matches_seq.mpr ⟨name, _, matches_names.mpr listed,
      matches_seq.mpr ⟨[' '], _, ?_, matches_seq.mpr ⟨['='], _, matches_literal.mpr rfl,
        matches_any _, rfl⟩, rfl⟩, rfl⟩, rfl⟩
    exact .more (s := [' ']) (.one rfl) .none

def isKept (name : Str) : Bool := decide (name ∉ recoveryTargets)

theorem removeLine_line {line : Str} {entry : Option (Str × Str)} (isLine : Line line entry) :
    Line (removeLine restoreLabel line) (entry.filter fun e => isKept e.1) := by
  rw [removeLine]
  by_cases removed : regExpMatch recoveryExp line = true
  · have dropped : entry.filter (fun e => isKept e.1) = none := by
      cases isLine with
      | blank | comment => rfl
      | setting named =>
        have listed := (regExpMatch_setting named).mp removed
        simp [Option.filter_some, isKept, listed]
    rw [if_pos removed, dropped]
    exact @Line.comment [] _ nofun
  · have kept : entry.filter (fun e => isKept e.1) = entry := by
      cases isLine with
      | blank | comment => rfl
      | setting named =>
        have other := mt (regExpMatch_setting named).mpr removed
        simp [Option.filter_some, isKept, other]
    rw [if_neg removed, kept]
    exact isLine

theorem removeLine_single (label : '\n' ∉ restoreLabel) {line : Str} (single : '\n' ∉ line) :
    '\n' ∉ removeLine restoreLabel line := by
  rw [removeLine]
  split
  · simp [label, single]
  · exact single

end Lines

/-! ## Restores one after the other -/

structure Restore where
  option : RecoveryOption
  pgVersion : Nat
  restoreLabel : Str

/-- Nothing is written by a restore that fails. -/
def Restore.run (restore : Restore) (pgPath : PgPath) : PgPath :=
  match restoreRecoveryWriteAutoConf restore.option restore.pgVersion restore.restoreLabel pgPath with
  | .ok written => written
  | .error _ => pgPath

def runAll (restores : List Restore) (pgPath : PgPath) : PgPath :=
  restores.foldl (fun pgPath restore => restore.run pgPath) pgPath

/-- A value may stand in a line of the file as it is. -/
def isLineValue (value : Str) : Bool := isVerbatim value && !value.contains '\n'

/-- The options of a restore that is to write the file: nothing in them needs quoting. -/
structure Restore.Plain (restore : Restore) : Prop where
  version : 120000 ≤ restore.pgVersion
  type : restore.option.type ≠ .preserve
  label : '\n' ∉ restore.restoreLabel
  names : ∀ pair ∈ restore.option.recoveryOption, isName (strReplaceChr pair.1 '-' '_') = true
  values : ∀ pair ∈ restore.option.recoveryOption, isLineValue pair.2 = true
  target : isLineValue restore.option.target = true
  timeline : ∀ targetTimeline ∈ restore.option.targetTimeline, isLineValue targetTimeline = true
  exe : isLineValue restore.option.cfgExe = true
  params : ∀ o ∈ restore.option.optionList, isPassed o → ∀ value ∈ o.value,
    ∀ item ∈ ExecParam.valueList value, isLineValue item = true

/-- A missing file has no settings. -/
def settingsOf (pgPath : PgPath) : Option (List (Str × Str)) :=
  match pgPath.autoConf with
  | none => some []
  | some autoConf => readConf autoConf

def restoreOptions (restore : Restore) : Except Error (List (Str × Str)) :=
  if restore.option.type = .none then .ok []
  else restoreRecoveryOption restore.option restore.pgVersion

def Overridden (restore : Restore) (pgPath : PgPath) : Prop :=
  ∃ options before after, restoreOptions restore = .ok options ∧ settingsOf pgPath = some before ∧
    settingsOf (restore.run pgPath) = some after ∧
    ∀ name, lastValue after name = (lastValue options name).or
      (if name ∈ recoveryTargets then none else lastValue before name)

/-! ## The options of a restore -/

section Options

variable {restore : Restore} {option : RecoveryOption} {pgVersion : Nat}

theorem lineValue_iff {value : Str} :
    isLineValue value = true ↔ ∀ c ∈ value, (c ≠ '\'' ∧ c ≠ '\\') ∧ c ≠ '\n' := by
  rw [isLineValue, Bool.and_eq_true, verbatim_iff]
  constructor
  · rintro ⟨verbatim, single⟩ c mem
    refine ⟨verbatim c mem, ?_⟩
    rintro rfl
    simp [mem] at single
  · intro each
    refine ⟨fun c mem => (each c mem).1, ?_⟩
    simpa using fun mem : '\n' ∈ value => (each _ mem).2 rfl

theorem isLineValue_restoreCommandStr (plain : restore.Plain) :
    isLineValue (restoreCommandStr restore.option) = true := by
  have plainChar : ∀ {c : Char}, ShellWords.isPlain c = true → (c ≠ '\'' ∧ c ≠ '\\') ∧ c ≠ '\n' := by
    intro c isPlain
    refine ⟨(ShellWords.plain_iff.mp isPlain).2.1.2, ?_⟩
    rintro rfl
    exact absurd isPlain (by decide)
  refine lineValue_iff.mpr (forall_restoreCommandStr (lineValue_iff.mp plain.exe) ?_ (by decide)
    (by decide) (fun param mem c isChar => plainChar ((archiveGet_fronted param mem).plain c isChar))
    (lineValue_iff.mp (by decide +kernel : isLineValue commandTail = true)))
  intro param mem value isValue
  exact lineValue_iff.mp (forall_archiveGetParams.mpr plain.params param mem value isValue)

theorem mem_userOptions {pair : Str × Str} (mem : pair ∈ userOptions option) :
    ∃ key, (key, pair.2) ∈ option.recoveryOption ∧ pair.1 = strReplaceChr key '-' '_' := by
  obtain ⟨key, -, found⟩ := List.mem_filterMap.mp mem
  obtain ⟨value, isValue, rfl⟩ := Option.map_eq_some_iff.mp found
  obtain ⟨entry, isEntry, rfl⟩ := Option.map_eq_some_iff.mp isValue
  have same : entry.1 = key := by simpa using List.find?_some isEntry
  exact ⟨key, by rw [← same]; exact List.mem_of_find?_eq_some isEntry, rfl⟩

theorem archiveModeOption_new (option : RecoveryOption) (version : 120000 ≤ pgVersion) : ∃ archiveMode,
    archiveModeOption option pgVersion = .ok archiveMode ∧
      ∀ pair ∈ archiveMode, isLineValue pair.2 = true := by
  rw [archiveModeOption]
  by_cases off : option.archiveModeOff = true
  · rw [if_pos off, if_neg (by omega)]
    exact ⟨_, rfl, by simp only [List.forall_mem_singleton]; decide⟩
  · rw [if_neg off]
    exact ⟨_, rfl, List.forall_mem_nil _⟩

theorem targetActionOption_new (option : RecoveryOption) (version : 120000 ≤ pgVersion) : ∃ targetAction,
    targetActionOption option pgVersion = .ok targetAction ∧
      ∀ pair ∈ targetAction, isLineValue pair.2 = true := by
  rw [targetActionOption]
  cases writtenAction option with
  | none => exact ⟨_, rfl, List.forall_mem_nil _⟩
  | some action =>
    have new : pgVersion ≥ 90500 := by omega
    dsimp only
    rw [if_pos new]
    refine ⟨_, rfl, ?_⟩
    rw [List.forall_mem_singleton]
    cases action <;> decide

theorem targetOption_lineValue (target : isLineValue option.target = true) :
    ∀ pair ∈ targetOption option pgVersion, isLineValue pair.2 = true := by
  have immediate : isLineValue "immediate".toList = true := by decide
  have on : isLineValue "on".toList = true := by decide
  have exclusive : isLineValue "false".toList = true := by decide
  rw [targetOption.eq_def]
  cases option.type with
  | default => exact List.forall_mem_nil _
  | immediate => simpa using immediate
  | standby =>
    dsimp only
    split
    · simpa using on
    · exact List.forall_mem_nil _
  | _ =>
    rw [List.forall_mem_cons]
    refine ⟨target, ?_⟩
    split
    · simpa using exclusive
    · exact List.forall_mem_nil _

theorem ownOptions_new (plain : restore.Plain) : ∃ own,
    ownOptions restore.option restore.pgVersion = .ok own ∧
      ∀ pair ∈ own, isLineValue pair.2 = true := by
  obtain ⟨archiveMode, isArchive, archive⟩ := archiveModeOption_new restore.option plain.version
  obtain ⟨targetAction, isAction, action⟩ := targetActionOption_new restore.option plain.version
  refine ⟨_, except_bind_ok_iff.mpr ⟨_, isArchive, except_bind_ok_iff.mpr ⟨_, isAction, rfl⟩⟩, ?_⟩
  have command : ∀ pair ∈ restoreCommandOption restore.option, isLineValue pair.2 = true := by
    rw [restoreCommandOption]
    split
    · rw [List.forall_mem_singleton]
      exact isLineValue_restoreCommandStr plain
    · exact List.forall_mem_nil _
  have timeline : ∀ pair ∈ timelineOption restore.option, isLineValue pair.2 = true := by
    rw [timelineOption]
    cases isTimeline : restore.option.targetTimeline with
    | none => exact List.forall_mem_nil _
    | some targetTimeline =>
      rw [List.forall_mem_singleton]
      exact plain.timeline targetTimeline isTimeline
  simp only [List.forall_mem_append]
  exact ⟨⟨⟨⟨archive, command⟩, targetOption_lineValue plain.target⟩, action⟩, timeline⟩

/-- The options are found, and each may be written as a line of the file. -/
theorem restoreRecoveryOption_plain (plain : restore.Plain) : ∃ options,
    restoreRecoveryOption restore.option restore.pgVersion = .ok options ∧
      ∀ pair ∈ options, isName pair.1 = true ∧ isLineValue pair.2 = true := by
  obtain ⟨own, isOwn, values⟩ := ownOptions_new plain
  refine ⟨_, except_bind_ok_iff.mpr ⟨own, isOwn, rfl⟩, fun pair mem => ⟨?_, ?_⟩⟩
  · refine (putAll_isName isOwn).mpr (fun user isUser => ?_) pair mem
    obtain ⟨key, isKey, same⟩ := mem_userOptions isUser
    rw [same]
    exact plain.names _ isKey
  · obtain ⟨front, back, split, -⟩ := mem_putAll.mp mem
    have isOption : pair ∈ userOptions restore.option ++ own := by
      rw [split]
      exact List.mem_append_right _ List.mem_cons_self
    rcases List.mem_append.mp isOption with isUser | isOwn'
    · obtain ⟨key, isKey, -⟩ := mem_userOptions isUser
      exact plain.values (key, pair.2) isKey
    · exact values pair isOwn'

end Options

/-! ## The file that a restore leaves -/

section Write

variable {restore : Restore} {pgPath : PgPath} {option : RecoveryOption} {pgVersion : Nat}
  {restoreLabel text : Str} {before options : List (Str × Str)}

/-- The file is made of plain lines and holds these settings. -/
def Holds (pgPath : PgPath) (entries : List (Str × Str)) : Prop :=
  match pgPath.autoConf with
  | none => entries = []
  | some autoConf => Conf autoConf entries

theorem Holds.settingsOf (holds : Holds pgPath before) : settingsOf pgPath = some before := by
  rw [Holds] at holds
  rw [RecoveryAutoConf.settingsOf]
  cases isConf : pgPath.autoConf with
  | none =>
    rw [isConf] at holds
    rw [holds]
  | some autoConf =>
    rw [isConf] at holds
    exact Conf.readConf holds

theorem conf_strTrim (conf : Conf text before) : Conf (strTrim text) before := by
  have spaces : ∀ c, isSpace c = true → IsSpace c := by
    intro c space
    simp only [isSpace, Bool.or_eq_true] at space
    simp only [IsSpace, isBlank, Bool.or_eq_true, beq_iff_eq] at space ⊢
    tauto
  exact (conf.dropWhile spaces).dropWhile_reverse spaces

/-- What is left of the file keeps the settings that are no recovery target, and other settings
may be put after it. -/
theorem oldContent_conf (label : '\n' ∉ restoreLabel) (holds : Holds pgPath before)
    (isNew : if option.type = .none then text = [] ∧ options = [] else Conf text options) :
    Conf (oldContent option restoreLabel pgPath.autoConf ++ text)
      (before.filter (fun e => isKept e.1) ++ options) := by
  rw [Holds] at holds
  rw [oldContent.eq_def]
  cases isConf : pgPath.autoConf with
  | none =>
    rw [isConf] at holds
    subst holds
    split at isNew
    · obtain ⟨rfl, rfl⟩ := isNew
      exact conf_nil
    · exact isNew
  | some autoConf =>
    rw [isConf] at holds
    have removed := Conf.map (fun _ _ => @removeLine_line restoreLabel _ _)
      (fun _ => removeLine_single label) holds
    dsimp only
    rw [strLstNewSplit_eq_splitOn, strLstJoin]
    by_cases isNone : option.type = .none
    · rw [if_pos isNone] at isNew
      obtain ⟨rfl, rfl⟩ := isNew
      rw [if_neg (not_not.mpr isNone), List.append_nil, List.append_nil]
      exact removed
    · rw [if_neg isNone] at isNew
      rw [if_pos isNone, List.append_assoc]
      exact conf_append.mpr ⟨_, _, rfl, conf_strTrim removed,
        (@conf_append [] _ _).mpr ⟨[], _, rfl, conf_nil, isNew⟩⟩

theorem restoreRecoveryConf_conf (label : '\n' ∉ restoreLabel)
    (done : restoreRecoveryOption option pgVersion = .ok options)
    (plain : ∀ pair ∈ options, isName pair.1 = true ∧ isLineValue pair.2 = true) :
    ∃ text, restoreRecoveryConf option pgVersion restoreLabel = .ok text ∧ Conf text options := by
  have written : ∃ text, restoreRecoveryConf option pgVersion restoreLabel = .ok text := by
    rw [restoreRecoveryConf, done]
    exact ⟨_, rfl⟩
  obtain ⟨text, written⟩ := written
  refine ⟨text, written, ?_⟩
  rw [restoreRecoveryConf_text done written]
  have header : '\n' ∉ "# Recovery settings generated by pgBackRest restore on ".toList ++ restoreLabel := by
    rw [List.mem_append, not_or]
    exact ⟨by decide, label⟩
  have values : ∀ pair ∈ options, isVerbatim pair.2 = true ∧ '\n' ∉ pair.2 := by
    intro pair mem
    simpa [isLineValue] using (plain pair mem).2
  refine conf_append.mpr ⟨[], options, rfl, ?_, ?_⟩
  · exact (conf_line header).mpr ⟨none, @Line.comment [] _ (List.forall_mem_nil _), rfl⟩
  · exact Conf.settings (fun pair mem => ⟨(plain pair mem).1, (values pair mem).1⟩)
      fun pair mem => (values pair mem).2

def Refused (restore : Restore) : Prop :=
  restore.option.type ≠ .none ∧ standbyMode ∈ recoveryOptionKey restore.option

theorem write_refused (refused : Refused restore) :
    restoreRecoveryWriteAutoConf restore.option restore.pgVersion restore.restoreLabel pgPath =
      .error standbyModeError := by
  rw [restoreRecoveryWriteAutoConf, newContent, if_pos refused.1, if_pos refused.2]
  rfl

/-- The step of one restore: its options are put after the settings that it keeps. -/
theorem write_holds (plain : restore.Plain) (allowed : ¬Refused restore)
    (holds : Holds pgPath before) : ∃ options written,
      restoreOptions restore = .ok options ∧
      restoreRecoveryWriteAutoConf restore.option restore.pgVersion restore.restoreLabel pgPath =
        .ok written ∧
      Holds written (before.filter (fun e => isKept e.1) ++ options) := by
  have found : ∃ options text, restoreOptions restore = .ok options ∧
      newContent restore.option restore.pgVersion restore.restoreLabel = .ok text ∧
      if restore.option.type = .none then text = [] ∧ options = [] else Conf text options := by
    rw [restoreOptions, newContent]
    by_cases isNone : restore.option.type = .none
    · rw [if_pos isNone, if_neg (not_not.mpr isNone)]
      exact ⟨[], [], rfl, rfl, by rw [if_pos isNone]; exact ⟨rfl, rfl⟩⟩
    · have others : standbyMode ∉ recoveryOptionKey restore.option := fun mem => allowed ⟨isNone, mem⟩
      obtain ⟨options, done, each⟩ := restoreRecoveryOption_plain plain
      obtain ⟨text, written, conf⟩ := restoreRecoveryConf_conf plain.label done each
      rw [if_neg isNone, if_pos isNone, if_neg others]
      exact ⟨options, text, done, written, by rw [if_neg isNone]; exact conf⟩
  obtain ⟨options, text, isOptions, isText, conf⟩ := found
  have content := oldContent_conf plain.label holds conf
  rw [restoreRecoveryWriteAutoConf, isText]
  by_cases standby : restore.option.type = .standby
  · exact ⟨options, _, isOptions, if_pos standby, content⟩
  · exact ⟨options, _, isOptions, if_neg standby, content⟩

theorem lastValue_kept (name : Str) :
    lastValue (before.filter (fun e => isKept e.1) ++ options) name =
      (lastValue options name).or (if name ∈ recoveryTargets then none else lastValue before name) := by
  rw [lastValue_append, lastValue_filter]
  by_cases removed : name ∈ recoveryTargets <;> simp [isKept, removed]

theorem run_overridden (plain : restore.Plain) (allowed : ¬Refused restore)
    (holds : Holds pgPath before) : Overridden restore pgPath := by
  obtain ⟨options, written, isOptions, isWritten, after⟩ := write_holds plain allowed holds
  have run : restore.run pgPath = written := by rw [Restore.run, isWritten]
  refine ⟨options, before, _, isOptions, holds.settingsOf, ?_, lastValue_kept⟩
  rw [run]
  exact after.settingsOf

theorem run_refused (refused : Refused restore) : restore.run pgPath = pgPath := by
  rw [Restore.run, write_refused refused]

theorem run_holds (plain : restore.Plain) (holds : Holds pgPath before) :
    ∃ after, Holds (restore.run pgPath) after := by
  by_cases refused : Refused restore
  · rw [run_refused refused]
    exact ⟨before, holds⟩
  · obtain ⟨options, written, -, isWritten, after⟩ := write_holds plain refused holds
    rw [Restore.run, isWritten]
    exact ⟨_, after⟩

/-- Any number of restores leaves a file of plain lines. -/
theorem runAll_holds {restores : List Restore} (plain : ∀ each ∈ restores, each.Plain)
    (holds : Holds pgPath before) : ∃ after, Holds (runAll restores pgPath) after := by
  induction restores generalizing pgPath before with
  | nil => exact ⟨before, holds⟩
  | cons restore restores ih =>
    obtain ⟨between, holds⟩ := run_holds (plain restore List.mem_cons_self) holds
    exact ih (fun each mem => plain each (List.mem_cons_of_mem _ mem)) holds

end Write

/-- After any restores a further one is refused for an option standby_mode and writes nothing,
or its options override the settings of the file, of which no recovery target is left. -/
theorem restoreRecoveryWriteAutoConf_runs {start : PgPath}
    (isConf : ∀ text ∈ start.autoConf, IsConf text) {restores : List Restore} {restore : Restore}
    (plain : ∀ each ∈ restores, each.Plain) (plainLast : restore.Plain) :
    (Refused restore → restoreRecoveryWriteAutoConf restore.option restore.pgVersion
      restore.restoreLabel (runAll restores start) = .error standbyModeError) ∧
    (¬Refused restore → (∃ written, restoreRecoveryWriteAutoConf restore.option restore.pgVersion
      restore.restoreLabel (runAll restores start) = .ok written) ∧
      Overridden restore (runAll restores start)) := by
  have holds : ∃ before, Holds start before := by
    unfold Holds
    cases isText : start.autoConf with
    | none => exact ⟨[], rfl⟩
    | some text => exact (isConf text isText).exists_conf
  obtain ⟨first, holds⟩ := holds
  obtain ⟨before, holds⟩ := runAll_holds plain holds
  refine ⟨write_refused, fun allowed => ⟨?_, run_overridden plainLast allowed holds⟩⟩
  obtain ⟨options, written, -, isWritten, -⟩ := write_holds plainLast allowed holds
  exact ⟨written, isWritten⟩

/-- A restore without options of the user. -/
def plainRestore (type : RestoreType) (target : Str) : Restore where
  option := { type := type, target := target, cfgExe := "pgbackrest".toList }
  pgVersion := 120000
  restoreLabel := "2018-11-20 10:00:00".toList

theorem plainRestore_plain {type : RestoreType} {target : Str} (kept : type ≠ .preserve)
    (value : isLineValue target = true) : (plainRestore type target).Plain where
  version := Nat.le_refl _
  type := kept
  label := (by decide +kernel : '\n' ∉ "2018-11-20 10:00:00".toList)
  names := nofun
  values := nofun
  target := value
  timeline := nofun
  exe := (by decide +kernel : isLineValue "pgbackrest".toList = true)
  params := nofun

/-- A file with a recovery target and no final newline. -/
def targetConf : Str := "# settings\nrecovery_target_time = 'now'".toList

theorem targetConf_isConf : IsConf targetConf := by
  have lines : targetConf.splitOn '\n' =
      ["# settings".toList, setting "recovery_target_time".toList "now".toList] := by decide +kernel
  intro line mem
  rw [lines] at mem
  rcases List.mem_cons.mp mem with rfl | mem
  · exact ⟨none, @Line.comment [] _ nofun⟩
  · rw [List.mem_singleton.mp mem]
    exact ⟨_, @Line.setting _ _ "now".toList (by decide +kernel) (by decide +kernel)⟩

theorem restoreRecoveryWriteAutoConf_twice :
    Overridden (plainRestore .immediate []) (runAll [plainRestore .time "2018-11-19".toList]
      ⟨some targetConf, false, false⟩) := by
  refine ((restoreRecoveryWriteAutoConf_runs ?_ ?_ (plainRestore_plain (by decide) (by decide))).2 ?_).2
  · rintro text ⟨⟩
    exact targetConf_isConf
  · intro each mem
    rw [List.mem_singleton.mp mem]
    exact plainRestore_plain (by decide) (by decide +kernel)
  · exact fun refused => absurd refused.2 List.not_mem_nil

/-- The user asks for standby_mode. -/
def standbyRestore : Restore where
  option := {
    recoveryOption := [(standbyMode, "on".toList)]
    cfgExe := "pgbackrest".toList }
  pgVersion := 120000
  restoreLabel := "2018-11-20 10:00:00".toList

theorem restoreRecoveryWriteAutoConf_standbyMode : IsConf targetConf ∧ standbyRestore.Plain ∧
    ¬Overridden standbyRestore ⟨some targetConf, false, false⟩ := by
  refine ⟨targetConf_isConf, ?_, ?_⟩
  · refine ⟨Nat.le_refl _, by decide, by decide +kernel, ?_, ?_, by decide, nofun, by decide +kernel, nofun⟩
    · exact List.forall_mem_singleton.mpr (by decide +kernel)
    · exact List.forall_mem_singleton.mpr (by decide +kernel)
  · rintro ⟨options, before, after, isOptions, isBefore, isAfter, law⟩
    have refused : Refused standbyRestore := by
      refine ⟨by decide, ?_⟩
      decide +kernel
    rw [run_refused refused] at isAfter
    have held : settingsOf ⟨some targetConf, false, false⟩ =
        some [("recovery_target_time".toList, "now".toList)] := by decide +kernel
    obtain rfl := Option.some.inj (isAfter.symm.trans held)
    have unset : (restoreOptions standbyRestore).toOption.bind
        (fun options => lastValue options "recovery_target_time".toList) = none := by decide +kernel
    rw [isOptions] at unset
    have claimed := law "recovery_target_time".toList
    have removed : "recovery_target_time".toList ∈ recoveryTargets := by decide +kernel
    rw [show lastValue options "recovery_target_time".toList = none from unset, if_pos removed] at claimed
    exact absurd claimed (by decide +kernel)

end RecoveryAutoConf
