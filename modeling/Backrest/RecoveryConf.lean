import Mathlib.Data.List.Induction
import Backrest.ConfFile
import Backrest.ExecParam
import Backrest.RestoreMap

/-!
# The recovery settings

The settings for recovery are the options of the user and those the restore sets itself, of
which the later one of a name counts. They are written between quotes as they are, so they
are read back when no value holds a quote or a backslash, and the restore command is the one
that was meant when its parts are words of a shell besides.
-/

namespace RecoveryConf

open Text Effects ConfFile ExecParam

section Code

inductive RestoreType where
  | default
  | immediate
  | lsn
  | name
  | none
  | preserve
  | standby
  | time
  | xid
  deriving DecidableEq

def restoreTypeStr : RestoreType → Str
  | .default => "default".toList
  | .immediate => "immediate".toList
  | .lsn => "lsn".toList
  | .name => "name".toList
  | .none => "none".toList
  | .preserve => "preserve".toList
  | .standby => "standby".toList
  | .time => "time".toList
  | .xid => "xid".toList

inductive TargetAction where
  | pause
  | promote
  | shutdown
  deriving DecidableEq

def targetActionStr : TargetAction → Str
  | .pause => "pause".toList
  | .promote => "promote".toList
  | .shutdown => "shutdown".toList

structure RecoveryOption where
  recoveryOption : List (Str × Str) := []
  /-- Is archive-mode off? Otherwise it is preserved. -/
  archiveModeOff : Bool := false
  type : RestoreType := .default
  /-- Required for the types that have a target. -/
  target : Str := []
  targetExclusive : Bool := false
  targetAction : Option TargetAction := none
  targetTimeline : Option Str := none
  cfgExe : Str
  optionList : List ExecOption := []

def strReplaceChr (this : Str) (find replace : Char) : Str :=
  this.map fun c => if c = find then replace else c

def kvPut (this : List (Str × Str)) (key value : Str) : List (Str × Str) :=
  match this with
  | [] => [(key, value)]
  | pair :: rest => if pair.1 = key then (key, value) :: rest else pair :: kvPut rest key value

def restoreCommand : Str := "restore_command".toList

/-- The options of the user, with _ for the - that they use as well. -/
def userOptions (option : RecoveryOption) : List (Str × Str) :=
  (strLstSort (RestoreMap.kvKeyList option.recoveryOption) .asc).filterMap fun key =>
    (RestoreMap.kvGet option.recoveryOption key).map fun value => (strReplaceChr key '-' '_', value)

def archiveModeError : Error :=
  ⟨.optionInvalidError, ("option 'archive-mode' is not supported on PostgreSQL < 12\n" ++
    "HINT: 'archive_mode' should be manually set to 'off' in postgresql.conf.").toList⟩

def archiveModeOption (option : RecoveryOption) (pgVersion : Nat) : Except Error (List (Str × Str)) :=
  if option.archiveModeOff = true then
    if pgVersion < 120000 then throw archiveModeError
    else return [("archive_mode".toList, "off".toList)]
  else return []

/-- Options that it does not make sense to pass from the restore command to archive-get. -/
def restoreOptionReplace : List (Str × Option OptionValue) :=
  ["exec-id", "job-retry", "job-retry-interval", "log-level-console", "log-level-file",
    "log-level-stderr", "log-subprocess", "log-timestamp", "process-max"].map
    fun name => (name.toList, none)

def archiveGetParams (option : RecoveryOption) : List Param :=
  execParams option.optionList "archive-get".toList restoreOptionReplace true

def restoreCommandStr (option : RecoveryOption) : Str :=
  option.cfgExe ++ ' ' :: strLstJoin
    (cfgExecParam option.optionList "archive-get".toList restoreOptionReplace true true) [' '] ++
    " %f \"%p\"".toList

def writesCommand (option : RecoveryOption) : Prop :=
  restoreCommand ∉ (userOptions option).map Prod.fst

instance (option : RecoveryOption) : Decidable (writesCommand option) :=
  inferInstanceAs (Decidable (_ ∉ _))

def restoreCommandOption (option : RecoveryOption) : List (Str × Str) :=
  if writesCommand option then [(restoreCommand, restoreCommandStr option)] else []

def recoveryTarget (type : RestoreType) : Str := "recovery_target_".toList ++ restoreTypeStr type

def targetOption (option : RecoveryOption) (pgVersion : Nat) : List (Str × Str) :=
  match option.type with
  | .immediate => [("recovery_target".toList, "immediate".toList)]
  | .standby =>
    -- Write standby_mode for PostgreSQL versions that support it
    if pgVersion < 120000 then [("standby_mode".toList, "on".toList)] else []
  | .default => []
  | type => (recoveryTarget type, option.target) ::
      if option.targetExclusive = true then [("recovery_target_inclusive".toList, "false".toList)]
      else []

def shutdownError : Error :=
  ⟨.optionInvalidError, "target-action=shutdown is only available in PostgreSQL >= 9.5".toList⟩

def targetActionError : Error :=
  ⟨.optionInvalidError, "target-action option is only available in PostgreSQL >= 9.1".toList⟩

/-- Pausing is the default of PostgreSQL. -/
def writtenAction (option : RecoveryOption) : Option TargetAction :=
  option.targetAction.filter (· ≠ .pause)

def targetActionOption (option : RecoveryOption) (pgVersion : Nat) :
    Except Error (List (Str × Str)) :=
  match writtenAction option with
  | none => return []
  | some targetAction =>
    if pgVersion ≥ 90500 then
      return [("recovery_target_action".toList, targetActionStr targetAction)]
    else if pgVersion ≥ 90100 then
      if targetAction = .shutdown then throw shutdownError
      else return [("pause_at_recovery_target".toList, "false".toList)]
    else throw targetActionError

def timelineOption (option : RecoveryOption) : List (Str × Str) :=
  match option.targetTimeline with
  | none => []
  | some targetTimeline => [("recovery_target_timeline".toList, targetTimeline)]

/-- The options that the restore sets itself. -/
def ownOptions (option : RecoveryOption) (pgVersion : Nat) : Except Error (List (Str × Str)) := do
  let archiveMode ← archiveModeOption option pgVersion
  let targetAction ← targetActionOption option pgVersion
  return archiveMode ++ restoreCommandOption option ++ targetOption option pgVersion ++
    targetAction ++ timelineOption option

def putAll (options : List (Str × Str)) : List (Str × Str) :=
  options.foldl (fun result pair => kvPut result pair.1 pair.2) []

def restoreRecoveryOption (option : RecoveryOption) (pgVersion : Nat) :
    Except Error (List (Str × Str)) := do
  let own ← ownOptions option pgVersion
  return putAll (userOptions option ++ own)

def restoreRecoveryConf (option : RecoveryOption) (pgVersion : Nat) (restoreLabel : Str) :
    Except Error Str := do
  let result := "# Recovery settings generated by pgBackRest restore on ".toList ++ restoreLabel ++ ['\n']
  let optionKv ← restoreRecoveryOption option pgVersion
  return result ++ optionKv.flatMap fun pair => pair.1 ++ " = '".toList ++ pair.2 ++ "'\n".toList

end Code

/-! ## Keys that are put -/

section Put

variable {options : List (Str × Str)}

theorem mem_kvPut {key value : Str} {pair : Str × Str} (nodup : (options.map Prod.fst).Nodup) :
    pair ∈ kvPut options key value ↔ pair = (key, value) ∨ pair ∈ options ∧ pair.1 ≠ key := by
  induction options with
  | nil => simp [kvPut]
  | cons first options ih =>
    rw [List.map_cons, List.nodup_cons] at nodup
    rw [kvPut]
    split
    next same =>
      have others : ∀ other ∈ options, other.1 ≠ key := by
        intro other mem eq
        exact nodup.1 (List.mem_map.mpr ⟨other, mem, eq.trans same.symm⟩)
      rw [List.mem_cons]
      refine or_congr_right ⟨fun mem => ⟨List.mem_cons_of_mem _ mem, others pair mem⟩, ?_⟩
      rintro ⟨mem, other⟩
      rcases List.mem_cons.mp mem with rfl | mem
      · exact absurd same other
      · exact mem
    next other =>
      rw [List.mem_cons, ih nodup.2, List.mem_cons]
      constructor
      · rintro (rfl | rfl | ⟨mem, differ⟩)
        · exact .inr ⟨.inl rfl, other⟩
        · exact .inl rfl
        · exact .inr ⟨.inr mem, differ⟩
      · rintro (rfl | ⟨rfl | mem, differ⟩)
        · exact .inr (.inl rfl)
        · exact .inl rfl
        · exact .inr (.inr ⟨mem, differ⟩)

theorem nodup_kvPut (key value : Str) (nodup : (options.map Prod.fst).Nodup) :
    ((kvPut options key value).map Prod.fst).Nodup := by
  induction options with
  | nil => simp [kvPut]
  | cons first options ih =>
    rw [List.map_cons, List.nodup_cons] at nodup
    rw [kvPut]
    split
    next same => rw [List.map_cons, List.nodup_cons, ← same]; exact nodup
    next other =>
      rw [List.map_cons, List.nodup_cons]
      refine ⟨fun mem => ?_, ih nodup.2⟩
      obtain ⟨pair, isPair, same⟩ := List.mem_map.mp mem
      rcases (mem_kvPut nodup.2).mp isPair with rfl | ⟨old, -⟩
      · exact other same.symm
      · exact nodup.1 (List.mem_map.mpr ⟨pair, old, same⟩)

theorem putAll_concat (options : List (Str × Str)) (pair : Str × Str) :
    putAll (options ++ [pair]) = kvPut (putAll options) pair.1 pair.2 := by
  rw [putAll, List.foldl_concat]
  rfl

theorem nodup_putAll (options : List (Str × Str)) : ((putAll options).map Prod.fst).Nodup := by
  induction options using List.reverseRecOn with
  | nil => exact List.nodup_nil
  | append_singleton options pair ih =>
    rw [putAll_concat]
    exact nodup_kvPut _ _ ih

/-- The last option of a name counts. -/
theorem mem_putAll {pair : Str × Str} : pair ∈ putAll options ↔
    ∃ front back, options = front ++ pair :: back ∧ pair.1 ∉ back.map Prod.fst := by
  induction options using List.reverseRecOn with
  | nil => simp [putAll]
  | append_singleton options last ih =>
    rw [putAll_concat, mem_kvPut (nodup_putAll options), ih]
    constructor
    · rintro (rfl | ⟨⟨front, back, rfl, later⟩, other⟩)
      · exact ⟨options, [], rfl, by simp⟩
      · refine ⟨front, back ++ [last], by simp, ?_⟩
        rw [List.map_append, List.mem_append, not_or]
        exact ⟨later, by simpa using other⟩
    · rintro ⟨front, back, split, later⟩
      rcases List.eq_nil_or_concat back with rfl | ⟨back, final, rfl⟩
      · obtain ⟨-, same⟩ := List.append_inj' split rfl
        exact .inl (List.cons.inj same).1.symm
      · rw [List.concat_eq_append, ← List.cons_append, ← List.append_assoc] at split
        obtain ⟨rfl, same⟩ := List.append_inj' split rfl
        rw [List.concat_eq_append, List.map_append, List.mem_append, not_or] at later
        rw [(List.cons.inj same).1]
        exact .inr ⟨⟨front, back, rfl, later.1⟩, by simpa using later.2⟩

theorem names_kvPut {key value name : Str} :
    name ∈ (kvPut options key value).map Prod.fst ↔ name = key ∨ name ∈ options.map Prod.fst := by
  induction options with
  | nil => simp [kvPut]
  | cons first options ih =>
    rw [kvPut]
    split
    next same => simp [same]
    next other =>
      rw [List.map_cons, List.mem_cons, ih, List.map_cons, List.mem_cons]
      exact or_left_comm

theorem names_putAll {name : Str} :
    name ∈ (putAll options).map Prod.fst ↔ name ∈ options.map Prod.fst := by
  induction options using List.reverseRecOn with
  | nil => exact Iff.rfl
  | append_singleton options last ih =>
    rw [putAll_concat, names_kvPut, ih, List.map_append, List.mem_append, or_comm]
    simp

end Put

/-! ## The options that the restore sets itself -/

section Own

variable {option : RecoveryOption} {pgVersion : Nat} {own : List (Str × Str)}

def hasTarget (type : RestoreType) : Prop := type ≠ .default ∧ type ≠ .immediate ∧ type ≠ .standby

def targetActionNames (option : RecoveryOption) (pgVersion : Nat) : List Str :=
  match writtenAction option with
  | none => []
  | some _ =>
    [if pgVersion ≥ 90500 then "recovery_target_action".toList
      else "pause_at_recovery_target".toList]

def ownNames (option : RecoveryOption) (pgVersion : Nat) : List Str :=
  (if option.archiveModeOff = true then ["archive_mode".toList] else []) ++
    (if writesCommand option then [restoreCommand] else []) ++
    (targetOption option pgVersion).map Prod.fst ++
    targetActionNames option pgVersion ++
    (timelineOption option).map Prod.fst

theorem archiveModeOption_ok (done : archiveModeOption option pgVersion = .ok own) :
    own.map Prod.fst = (if option.archiveModeOff = true then ["archive_mode".toList] else []) ∧
      ∀ pair ∈ own, isVerbatim pair.2 = true := by
  rw [archiveModeOption] at done
  split at done
  next off =>
    split at done
    · cases done
    · cases done
      rw [if_pos off]
      exact ⟨rfl, fun pair mem => by rw [List.mem_singleton.mp mem]; rfl⟩
  next off =>
    cases done
    rw [if_neg off]
    exact ⟨rfl, fun pair mem => by cases mem⟩

theorem targetActionOption_ok (done : targetActionOption option pgVersion = .ok own) :
    own.map Prod.fst = targetActionNames option pgVersion ∧
      ∀ pair ∈ own, isVerbatim pair.2 = true := by
  rw [targetActionOption] at done
  rw [targetActionNames]
  cases isAction : writtenAction option with
  | none =>
    rw [isAction] at done
    cases done
    exact ⟨rfl, fun pair mem => by cases mem⟩
  | some action =>
    rw [isAction] at done
    dsimp only at done ⊢
    split at done
    next new =>
      cases done
      rw [if_pos new]
      refine ⟨rfl, fun pair mem => ?_⟩
      rw [List.mem_singleton.mp mem]
      cases action <;> rfl
    next new =>
      rw [if_neg new]
      split at done
      · split at done
        · cases done
        · cases done
          exact ⟨rfl, fun pair mem => by rw [List.mem_singleton.mp mem]; rfl⟩
      · cases done

theorem ownOptions_names (done : ownOptions option pgVersion = .ok own) :
    own.map Prod.fst = ownNames option pgVersion := by
  obtain ⟨archiveMode, isArchive, done⟩ := except_bind_ok done
  obtain ⟨targetAction, isAction, done⟩ := except_bind_ok done
  cases done
  have command : (restoreCommandOption option).map Prod.fst =
      if writesCommand option then [restoreCommand] else [] := by
    rw [restoreCommandOption]
    split <;> rfl
  simp only [List.map_append, ownNames, (archiveModeOption_ok isArchive).1,
    (targetActionOption_ok isAction).1, command]

def restoreTypes : List RestoreType :=
  [.default, .immediate, .lsn, .name, .none, .preserve, .standby, .time, .xid]

def allNames : List Str :=
  ["archive_mode".toList] ++ [restoreCommand] ++
    (["recovery_target".toList, "standby_mode".toList] ++
      (restoreTypes.map recoveryTarget ++ ["recovery_target_inclusive".toList])) ++
    ["recovery_target_action".toList, "pause_at_recovery_target".toList] ++
    ["recovery_target_timeline".toList]

theorem ownNames_sublist : (ownNames option pgVersion).Sublist allNames := by
  refine (((List.Sublist.append ?_ ?_).append ?_).append ?_).append ?_
  · split
    · exact List.Sublist.refl _
    · exact List.nil_sublist _
  · split
    · exact List.Sublist.refl _
    · exact List.nil_sublist _
  · rw [targetOption.eq_def]
    split
    · exact (List.nil_sublist _).cons_cons _
    · split
      · exact ((List.nil_sublist _).cons_cons _).cons _
      · exact List.nil_sublist _
    · exact List.nil_sublist _
    · have listed : option.type ∈ restoreTypes := by cases option.type <;> decide
      have target : [recoveryTarget option.type].Sublist (restoreTypes.map recoveryTarget) :=
        List.singleton_sublist.mpr (List.mem_map_of_mem listed)
      rw [List.map_cons, ← List.singleton_append]
      refine ((target.append ?_).cons _).cons _
      split
      · exact List.Sublist.refl _
      · exact List.nil_sublist _
  · rw [targetActionNames]
    split
    · exact List.nil_sublist _
    · split
      · exact (List.nil_sublist _).cons_cons _
      · exact (List.Sublist.refl _).cons _
  · rw [timelineOption]
    split
    · exact List.nil_sublist _
    · exact List.Sublist.refl _

theorem allNames_nodup : allNames.Nodup := by decide +kernel

theorem allNames_isName : ∀ name ∈ allNames, isName name = true := by decide +kernel

theorem targetOption_verbatim : (∀ pair ∈ targetOption option pgVersion, isVerbatim pair.2 = true) ↔
    (hasTarget option.type → isVerbatim option.target = true) := by
  rw [targetOption.eq_def, hasTarget]
  cases option.type with
  | default => simp
  | immediate =>
    refine iff_of_true (fun pair mem => ?_) (fun no => absurd rfl no.2.1)
    rw [List.mem_singleton.mp mem]
    rfl
  | standby =>
    refine iff_of_true (fun pair mem => ?_) (fun no => absurd rfl no.2.2)
    dsimp only at mem
    split at mem
    · rw [List.mem_singleton.mp mem]
      rfl
    · cases mem
  | _ =>
    have inclusive : ∀ pair ∈ (if option.targetExclusive = true then
        [("recovery_target_inclusive".toList, "false".toList)] else []), isVerbatim pair.2 = true := by
      intro pair mem
      split at mem
      · rw [List.mem_singleton.mp mem]
        rfl
      · cases mem
    simp only [List.forall_mem_cons, ne_eq, reduceCtorEq, not_false_eq_true, and_self, true_imp_iff]
    exact and_iff_left inclusive

theorem ownOptions_verbatim (done : ownOptions option pgVersion = .ok own) :
    (∀ pair ∈ own, isVerbatim pair.2 = true) ↔
      (hasTarget option.type → isVerbatim option.target = true) ∧
      (∀ targetTimeline ∈ option.targetTimeline, isVerbatim targetTimeline = true) ∧
      (writesCommand option → isVerbatim (restoreCommandStr option) = true) := by
  obtain ⟨archiveMode, isArchive, done⟩ := except_bind_ok done
  obtain ⟨targetAction, isAction, done⟩ := except_bind_ok done
  cases done
  have timeline : (∀ pair ∈ timelineOption option, isVerbatim pair.2 = true) ↔
      ∀ targetTimeline ∈ option.targetTimeline, isVerbatim targetTimeline = true := by
    rw [timelineOption]
    cases option.targetTimeline <;> simp
  have command : (∀ pair ∈ restoreCommandOption option, isVerbatim pair.2 = true) ↔
      (writesCommand option → isVerbatim (restoreCommandStr option) = true) := by
    rw [restoreCommandOption]
    split
    next writes => simp [writes]
    next writes => simp [writes]
  simp only [List.forall_mem_append, targetOption_verbatim, timeline, command]
  have archive := (archiveModeOption_ok isArchive).2
  have action := (targetActionOption_ok isAction).2
  tauto

def UsersVerbatim (option : RecoveryOption) (pgVersion : Nat) : Prop :=
  ∀ front pair back, userOptions option = front ++ pair :: back → pair.1 ∉ back.map Prod.fst →
    pair.1 ∉ ownNames option pgVersion → isVerbatim pair.2 = true

theorem mem_putAll_own (done : ownOptions option pgVersion = .ok own) {pair : Str × Str}
    (mem : pair ∈ own) : pair ∈ putAll (userOptions option ++ own) := by
  obtain ⟨front, back, rfl⟩ := List.append_of_mem mem
  have nodup : (ownNames option pgVersion).Nodup :=
    ownNames_sublist.nodup allNames_nodup
  rw [← ownOptions_names done, List.map_append, List.map_cons, List.nodup_append,
    List.nodup_cons] at nodup
  exact mem_putAll.mpr ⟨userOptions option ++ front, back, by simp, nodup.2.1.1⟩

theorem putAll_verbatim (done : ownOptions option pgVersion = .ok own) :
    (∀ pair ∈ putAll (userOptions option ++ own), isVerbatim pair.2 = true) ↔
      UsersVerbatim option pgVersion ∧ ∀ pair ∈ own, isVerbatim pair.2 = true := by
  constructor
  · intro verbatim
    refine ⟨?_, fun pair mem => verbatim pair (mem_putAll_own done mem)⟩
    intro front pair back split later other
    refine verbatim pair (mem_putAll.mpr ⟨front, back ++ own, by simp [split], ?_⟩)
    rw [List.map_append, List.mem_append, not_or, ownOptions_names done]
    exact ⟨later, other⟩
  · rintro ⟨users, own'⟩ pair mem
    obtain ⟨front, back, split, later⟩ := mem_putAll.mp mem
    rcases List.append_eq_append_iff.mp split with ⟨rest, -, same⟩ | ⟨rest, same, tail⟩
    · exact own' pair (by rw [same]; simp)
    · cases rest with
      | nil =>
        rw [List.nil_append] at tail
        exact own' pair (by rw [← tail]; exact List.mem_cons_self)
      | cons first rest =>
        rw [List.cons_append, List.cons.injEq] at tail
        obtain ⟨rfl, rfl⟩ := tail
        rw [List.map_append, List.mem_append, not_or, ownOptions_names done] at later
        exact users front pair rest same later.1 later.2

theorem putAll_isName (done : ownOptions option pgVersion = .ok own) :
    (∀ pair ∈ putAll (userOptions option ++ own), isName pair.1 = true) ↔
      ∀ pair ∈ userOptions option, isName pair.1 = true := by
  constructor
  · intro named pair mem
    have listed : pair.1 ∈ (putAll (userOptions option ++ own)).map Prod.fst := by
      rw [names_putAll, List.map_append]
      exact List.mem_append_left _ (List.mem_map_of_mem mem)
    obtain ⟨other, isOther, same⟩ := List.mem_map.mp listed
    rw [← same]
    exact named other isOther
  · intro named pair mem
    have listed : pair.1 ∈ (userOptions option ++ own).map Prod.fst :=
      names_putAll.mp (List.mem_map_of_mem mem)
    rw [List.map_append, List.mem_append, ownOptions_names done] at listed
    rcases listed with user | isOwn
    · obtain ⟨other, isOther, same⟩ := List.mem_map.mp user
      rw [← same]
      exact named other isOther
    · exact allNames_isName _ (ownNames_sublist.subset isOwn)

end Own

/-! ## The restore command -/

section Command

variable {option : RecoveryOption}

/-- Does the restore pass the values of an option on to archive-get? -/
def isPassed (option : ExecOption) : Prop :=
  (option.commandValid = true ∧ option.secure = false ∧ option.repoCipherType = false) ∧
    option.name ∉ restoreOptionReplace.map Prod.fst ∧
    option.valid = true ∧ option.negate = false ∧ option.source = .param

theorem forall_valueParam {P : Str → Prop} (name : Str) (value : OptionValue) :
    (∀ param ∈ valueParam name value, ∀ item ∈ param.value, P item) ↔
      ∀ item ∈ valueList value, P item := by
  cases value with
  | bool value => cases value <;> simp [valueParam, valueList]
  | keyValue list => simp [valueParam]
  | list list => simp [valueParam]
  | one display => simp [valueParam]

theorem find_restoreOptionReplace (name : Str) :
    (restoreOptionReplace.find? (fun pair => pair.1 = name) = none ∧
      name ∉ restoreOptionReplace.map Prod.fst) ∨
    ∃ key, restoreOptionReplace.find? (fun pair => pair.1 = name) = some (key, none) ∧
      name ∈ restoreOptionReplace.map Prod.fst := by
  cases found : restoreOptionReplace.find? (fun pair => pair.1 = name) with
  | none =>
    refine .inl ⟨rfl, fun mem => ?_⟩
    obtain ⟨pair, isPair, same⟩ := List.mem_map.mp mem
    simpa [same] using List.find?_eq_none.mp found pair isPair
  | some pair =>
    have mem := List.mem_of_find?_eq_some found
    have same : pair.1 = name := by simpa using List.find?_some found
    obtain ⟨key, -, rfl⟩ := List.mem_map.mp mem
    exact .inr ⟨_, rfl, List.mem_map.mpr ⟨_, mem, same⟩⟩

theorem forall_execOption {P : Str → Prop} (o : ExecOption) :
    (∀ param ∈ execOption restoreOptionReplace true o, ∀ item ∈ param.value, P item) ↔
      (isPassed o → ∀ value ∈ o.value, ∀ item ∈ valueList value, P item) := by
  rw [execOption, isPassed]
  by_cases left : o.commandValid = false ∨ o.secure = true ∨ o.repoCipherType = true
  · rw [if_pos left]
    refine iff_of_true (fun _ mem => (by cases mem)) fun passed => ?_
    simp [passed.1] at left
  · rw [if_neg left]
    have kept : o.commandValid = true ∧ o.secure = false ∧ o.repoCipherType = false := by
      simpa using left
    rcases find_restoreOptionReplace o.name with ⟨found, other⟩ | ⟨key, found, listed⟩
    · rw [found]
      dsimp only
      have unset : ∀ param ∈ (if o.valid = true ∧ o.reset = true then
          [({ front := optionFront ("reset-".toList ++ o.name) } : Param)] else []),
          ∀ item ∈ param.value, P item := by
        intro param mem item isItem
        split at mem
        · rw [List.mem_singleton.mp mem] at isItem
          cases isItem
        · cases mem
      rw [currentValue]
      by_cases valid : o.valid = false
      · rw [if_pos valid]
        exact iff_of_true unset fun passed => by simp [valid] at passed
      rw [if_neg valid]
      by_cases negate : o.negate = true
      · rw [if_pos negate]
        refine iff_of_true (fun param mem => ?_) fun passed => by simp [negate] at passed
        dsimp only at mem
        split at mem
        · exact (forall_valueParam o.name (.bool false)).mpr (fun _ mem => by cases mem) param mem
        · cases mem
      rw [if_neg negate]
      by_cases default : o.source = .default
      · rw [if_neg (not_not.mpr default)]
        exact iff_of_true unset fun passed => by simp [default] at passed
      rw [if_pos default]
      cases o.value with
      | none => exact iff_of_true unset fun _ _ isValue => by cases isValue
      | some value =>
        dsimp only
        by_cases source : o.source = .param
        · rw [if_pos (.inr source), forall_valueParam]
          simp [kept, other, valid, negate, source]
        · rw [if_neg (by simp [source])]
          exact iff_of_true (fun _ mem => (by cases mem)) fun passed => absurd passed.2.2.2.2 source
    · rw [found]
      exact iff_of_true (fun _ mem => (by cases mem)) fun passed => absurd listed passed.2.1

theorem forall_archiveGetParams {P : Str → Prop} :
    (∀ param ∈ archiveGetParams option, ∀ item ∈ param.value, P item) ↔
      ∀ o ∈ option.optionList, isPassed o → ∀ value ∈ o.value, ∀ item ∈ valueList value, P item := by
  rw [archiveGetParams, execParams, List.forall_mem_append, List.forall_mem_flatMap]
  simp only [forall_execOption, List.forall_mem_singleton]
  exact and_iff_left fun item mem => by cases mem

theorem archiveGet_fronted : ∀ param ∈ archiveGetParams option, Fronted param := by
  refine execParams_fronted ⟨⟨'a', _, rfl, by decide⟩, ?_⟩
  exact List.all_eq_true.mp (by decide : "archive-get".toList.all ShellWords.isPlain = true)

def commandTail : Str := "%f \"%p\"".toList

theorem join_params {texts : List Str} (some : texts ≠ []) (tail : Str) :
    strLstJoin texts [' '] ++ ' ' :: tail = texts.foldr (fun text rest => text ++ ' ' :: rest) tail := by
  induction texts with
  | nil => exact absurd rfl some
  | cons text texts ih =>
    cases texts with
    | nil => simp [strLstJoin]
    | cons next texts =>
      rw [List.foldr_cons, ← ih (List.cons_ne_nil _ _)]
      simp [strLstJoin, List.intercalate]

theorem restoreCommandStr_eq : restoreCommandStr option =
    paramText true { front := option.cfgExe } ++
      ' ' :: paramsText (archiveGetParams option) commandTail := by
  have some : archiveGetParams option ≠ [] := by
    rw [archiveGetParams, execParams]
    simp
  have tail : " %f \"%p\"".toList = ' ' :: commandTail := rfl
  rw [restoreCommandStr, cfgExecParam, ← archiveGetParams, tail, List.append_assoc, List.cons_append,
    join_params (by simpa using some), List.foldr_map]
  rfl

/-- The program is a word of its own. -/
def PlainExe (cfgExe : Str) : Prop :=
  cfgExe ≠ [] ∧ cfgExe.head? ≠ some '#' ∧ ∀ c ∈ cfgExe, ShellWords.isPlain c = true

theorem plainExe_fronted {cfgExe : Str} (plain : PlainExe cfgExe) : Fronted { front := cfgExe } := by
  obtain ⟨some, start, plain⟩ := plain
  cases cfgExe with
  | nil => exact absurd rfl some
  | cons c front => exact ⟨⟨c, front, rfl, by simpa using start⟩, plain⟩

def commandWords (option : RecoveryOption) : List Str :=
  option.cfgExe :: cfgExecParam option.optionList "archive-get".toList restoreOptionReplace true false ++
    ["%f".toList, "%p".toList]

theorem words_restoreCommandStr (exe : PlainExe option.cfgExe)
    (word : ∀ param ∈ archiveGetParams option, ∀ value ∈ param.value, isWord value = true) :
    ShellWords.words (restoreCommandStr option) = some (commandWords option) := by
  have tail : ShellWords.words commandTail = some ["%f".toList, "%p".toList] := by decide +kernel
  rw [restoreCommandStr_eq, words_param (plainExe_fronted exe) (fun _ mem => by cases mem),
    words_params archiveGet_fronted word, tail]
  rfl

theorem paramsText_start {params : List Param} (fronted : ∀ param ∈ params, Fronted param) :
    ∃ d rest, paramsText params commandTail = d :: rest ∧ ShellWords.isPlain d = true ∧ d ≠ '#' := by
  cases params with
  | nil => exact ⟨'%', _, rfl, by decide, by decide⟩
  | cons param params =>
    obtain ⟨⟨c, front, same, start⟩, plain⟩ := fronted param List.mem_cons_self
    rw [same] at plain
    rw [paramsText, List.foldr_cons, paramText]
    cases param.value with
    | none => exact ⟨c, _, by rw [same]; rfl, plain c List.mem_cons_self, start⟩
    | some value => exact ⟨c, _, by rw [same]; rfl, plain c List.mem_cons_self, start⟩

theorem mem_paramsText {params : List Param} {param : Param} {value : Str} {c : Char}
    (isParam : param ∈ params) (isValue : param.value = some value) (mem : c ∈ value) (tail : Str) :
    c ∈ paramsText params tail := by
  induction params with
  | nil => cases isParam
  | cons first params ih =>
    rw [paramsText, List.foldr_cons, List.mem_append]
    rcases List.mem_cons.mp isParam with rfl | later
    · refine .inl ?_
      rw [paramText, isValue]
      dsimp only
      split <;> simp [mem]
    · exact .inr (List.mem_cons_of_mem _ (ih later))

theorem of_words_restoreCommandStr
    (verbatim : ∀ c ∈ restoreCommandStr option, c ≠ '\'' ∧ c ≠ '\\')
    (read : ShellWords.words (restoreCommandStr option) = some (commandWords option)) :
    PlainExe option.cfgExe ∧
      ∀ param ∈ archiveGetParams option, ∀ value ∈ param.value, isWord value = true := by
  obtain ⟨clean, -⟩ := ShellWords.read_spec verbatim (.inl rfl) (by simp) read
  rw [restoreCommandStr_eq] at verbatim read
  have exe : ∀ c ∈ option.cfgExe, ShellWords.isQuote c = false := by
    intro c mem
    refine ShellWords.unquoted_iff.mpr ⟨?_, verbatim c (List.mem_append_left _ mem)⟩
    rintro rfl
    exact clean option.cfgExe List.mem_cons_self mem
  have values : ∀ param ∈ archiveGetParams option, ∀ value ∈ param.value, ∀ c ∈ value,
      ShellWords.isQuote c = false := by
    intro param isParam value isValue c mem
    refine ShellWords.unquoted_iff.mpr ⟨?_, verbatim c (List.mem_append_right _
      (List.mem_cons_of_mem _ (mem_paramsText isParam isValue mem _)))⟩
    rintro rfl
    have raw : paramText false param ∈ commandWords option :=
      List.mem_cons_of_mem _ (List.mem_append_left _ (List.mem_map_of_mem isParam))
    refine clean _ raw ?_
    rw [paramText, Option.mem_def.mp isValue]
    simp [mem]
  obtain ⟨d, rest, start, plain, solid⟩ := paramsText_start (@archiveGet_fronted option)
  have unslashed : ∀ c ∈ rest, c ≠ '\'' ∧ c ≠ '\\' := by
    intro c mem
    refine verbatim c (List.mem_append_right _ (List.mem_cons_of_mem _ ?_))
    rw [start]
    exact List.mem_cons_of_mem _ mem
  have first : ShellWords.words (option.cfgExe ++ ' ' :: d :: rest) =
      some (option.cfgExe :: (cfgExecParam option.optionList "archive-get".toList restoreOptionReplace
        true false ++ ["%f".toList, "%p".toList])) := by
    rw [← start]
    exact read
  have program : PlainExe option.cfgExe := ShellWords.plain_of_words unslashed plain solid exe first
  rw [words_param (plainExe_fronted program) (fun _ mem => by cases mem)] at read
  obtain ⟨ws, tail, same⟩ := Option.map_eq_some_iff.mp read
  obtain ⟨-, rfl⟩ := List.cons.inj same
  exact ⟨program, isWord_of_words_params archiveGet_fronted values tail⟩

theorem mem_paramText {param : Param} {c : Char} (mem : c ∈ paramText true param) :
    c ∈ param.front ∨ c = '"' ∨ ∃ value, param.value = some value ∧ c ∈ value := by
  rw [paramText] at mem
  cases isValue : param.value with
  | none =>
    rw [isValue] at mem
    exact .inl mem
  | some value =>
    rw [isValue] at mem
    rcases List.mem_append.mp mem with mem | mem
    · exact .inl mem
    split at mem
    · rcases List.mem_append.mp mem with mem | mem
      · rcases List.mem_cons.mp mem with rfl | mem
        · exact .inr (.inl rfl)
        · exact .inr (.inr ⟨value, rfl, mem⟩)
      · exact .inr (.inl (List.mem_singleton.mp mem))
    · exact .inr (.inr ⟨value, rfl, mem⟩)

theorem forall_restoreCommandStr {P : Char → Prop} (exe : ∀ c ∈ option.cfgExe, P c)
    (values : ∀ param ∈ archiveGetParams option, ∀ value ∈ param.value, ∀ c ∈ value, P c)
    (quote : P '"') (space : P ' ')
    (fronts : ∀ param ∈ archiveGetParams option, ∀ c ∈ param.front, P c)
    (tail : ∀ c ∈ commandTail, P c) : ∀ c ∈ restoreCommandStr option, P c := by
  rw [restoreCommandStr_eq]
  generalize archiveGetParams option = params at values fronts
  have texts : ∀ c ∈ paramsText params commandTail, P c := by
    induction params with
    | nil => exact tail
    | cons param params ih =>
      intro c mem
      rw [paramsText, List.foldr_cons] at mem
      rcases List.mem_append.mp mem with mem | mem
      · rcases mem_paramText mem with mem | rfl | ⟨value, isValue, mem⟩
        · exact fronts param List.mem_cons_self c mem
        · exact quote
        · exact values param List.mem_cons_self value isValue c mem
      rcases List.mem_cons.mp mem with rfl | mem
      · exact space
      · exact ih (fun p isParam => values p (List.mem_cons_of_mem _ isParam))
          (fun p isParam => fronts p (List.mem_cons_of_mem _ isParam)) c mem
  intro c mem
  rcases List.mem_append.mp mem with mem | mem
  · exact exe c mem
  rcases List.mem_cons.mp mem with rfl | mem
  · exact space
  · exact texts c mem

/-- A command of plain words holds no single quote and no backslash. -/
theorem verbatim_of_words (exe : PlainExe option.cfgExe)
    (word : ∀ param ∈ archiveGetParams option, ∀ value ∈ param.value, isWord value = true) :
    isVerbatim (restoreCommandStr option) = true := by
  have plain : ∀ {c : Char}, ShellWords.isPlain c = true → c ≠ '\'' ∧ c ≠ '\\' :=
    fun each => (ShellWords.plain_iff.mp each).2.1.2
  rw [verbatim_iff]
  refine forall_restoreCommandStr (fun c mem => plain (exe.2.2 c mem)) ?_ (by decide) (by decide)
    (fun param mem c isChar => plain ((archiveGet_fronted param mem).plain c isChar))
    (verbatim_iff.mp (by decide +kernel : isVerbatim commandTail = true))
  intro param mem value isValue c isChar
  have closed := (isWord_iff.mp (word param mem value isValue)).1 c isChar
  exact (ShellWords.unquoted_iff.mp closed.2).2

end Command

/-! ## The file -/

section File

variable {option : RecoveryOption} {pgVersion : Nat} {restoreLabel text : Str}
  {options : List (Str × Str)}

structure ReadsBack (option : RecoveryOption) (options : List (Str × Str)) (text : Str) : Prop where
  conf : ∃ entries, readConf text = some entries ∧ entries.Perm options
  command : writesCommand option → ∀ value, (restoreCommand, value) ∈ options →
    ShellWords.words value = some (commandWords option)

structure Quotable (option : RecoveryOption) (pgVersion : Nat) : Prop where
  names : ∀ pair ∈ userOptions option, isName pair.1 = true
  users : UsersVerbatim option pgVersion
  target : hasTarget option.type → isVerbatim option.target = true
  timeline : ∀ targetTimeline ∈ option.targetTimeline, isVerbatim targetTimeline = true
  command : writesCommand option → PlainExe option.cfgExe ∧
    ∀ o ∈ option.optionList, isPassed o → ∀ value ∈ o.value, ∀ item ∈ valueList value,
      isWord item = true

theorem restoreRecoveryConf_text (done : restoreRecoveryOption option pgVersion = .ok options)
    (written : restoreRecoveryConf option pgVersion restoreLabel = .ok text) :
    text = "# Recovery settings generated by pgBackRest restore on ".toList ++ restoreLabel ++
      '\n' :: settingsText options := by
  rw [restoreRecoveryConf, done] at written
  cases written
  rw [List.append_assoc, List.singleton_append, settingsText]
  refine congrArg _ (congrArg _ (List.flatMap_congr fun pair _ => ?_))
  simp [setting]

theorem restoreRecoveryConf_perm_iff (done : restoreRecoveryOption option pgVersion = .ok options)
    (written : restoreRecoveryConf option pgVersion restoreLabel = .ok text)
    (label : '\n' ∉ restoreLabel) (single : ∀ pair ∈ options, '\n' ∉ pair.2) :
    (∃ entries, readConf text = some entries ∧ entries.Perm options) ↔
      ∀ pair ∈ options, isName pair.1 = true ∧ isVerbatim pair.2 = true := by
  have nodup : (options.map Prod.fst).Nodup := by
    obtain ⟨own, -, same⟩ := except_bind_ok done
    cases same
    exact nodup_putAll _
  have header : '\n' ∉ "# Recovery settings generated by pgBackRest restore on ".toList ++ restoreLabel := by
    rw [List.mem_append, not_or]
    exact ⟨by decide, label⟩
  have comment : readLine ("# Recovery settings generated by pgBackRest restore on ".toList ++
      restoreLabel) = some none := rfl
  rw [restoreRecoveryConf_text done written, readConf_cons header, comment,
    ← readConf_perm_iff nodup single]
  cases readConf (settingsText options) with
  | none => rfl
  | some entries => rfl

theorem restoreCommand_mem {own : List (Str × Str)} (isOwn : ownOptions option pgVersion = .ok own)
    (writes : writesCommand option) {value : Str} :
    (restoreCommand, value) ∈ putAll (userOptions option ++ own) ↔ value = restoreCommandStr option := by
  have mem : (restoreCommand, restoreCommandStr option) ∈ putAll (userOptions option ++ own) := by
    refine mem_putAll_own isOwn ?_
    obtain ⟨archiveMode, -, done⟩ := except_bind_ok isOwn
    obtain ⟨targetAction, -, done⟩ := except_bind_ok done
    cases done
    simp [restoreCommandOption, writes]
  constructor
  · intro other
    have same := List.inj_on_of_nodup_map (nodup_putAll _) other mem rfl
    exact congrArg Prod.snd same
  · rintro rfl
    exact mem

/-- The recovery settings are read back as they are, with the command that was meant, exactly if
what is written without quoting needs none. -/
theorem restoreRecoveryConf_reads_iff (done : restoreRecoveryOption option pgVersion = .ok options)
    (written : restoreRecoveryConf option pgVersion restoreLabel = .ok text)
    (label : '\n' ∉ restoreLabel) (single : ∀ pair ∈ options, '\n' ∉ pair.2) :
    ReadsBack option options text ↔ Quotable option pgVersion := by
  have conf := restoreRecoveryConf_perm_iff done written label single
  obtain ⟨own, isOwn, same⟩ := except_bind_ok done
  cases same
  have named := putAll_isName isOwn
  have verbatim := (putAll_verbatim isOwn).trans (and_congr_right' (ownOptions_verbatim isOwn))
  constructor
  · intro reads
    have each := conf.mp reads.conf
    obtain ⟨users, target, timeline, command⟩ := verbatim.mp fun pair mem => (each pair mem).2
    refine ⟨named.mp fun pair mem => (each pair mem).1, users, target, timeline, fun writes => ?_⟩
    have read := reads.command writes _ ((restoreCommand_mem isOwn writes).mpr rfl)
    obtain ⟨exe, word⟩ := of_words_restoreCommandStr (verbatim_iff.mp (command writes)) read
    exact ⟨exe, forall_archiveGetParams.mp word⟩
  · intro quotable
    have command : writesCommand option → isVerbatim (restoreCommandStr option) = true := by
      intro writes
      obtain ⟨exe, word⟩ := quotable.command writes
      exact verbatim_of_words exe (forall_archiveGetParams.mpr word)
    have values := verbatim.mpr ⟨quotable.users, quotable.target, quotable.timeline, command⟩
    refine ⟨conf.mpr fun pair mem => ⟨named.mpr quotable.names pair mem, values pair mem⟩, ?_⟩
    intro writes value mem
    obtain ⟨exe, word⟩ := quotable.command writes
    rw [(restoreCommand_mem isOwn writes).mp mem]
    exact words_restoreCommandStr exe (forall_archiveGetParams.mpr word)

def pgPathOption (path : Str) : ExecOption where
  name := "pg1-path".toList
  plain := by decide
  source := .param
  value := some (.one path)

def spaceOption : RecoveryOption where
  recoveryOption := [("primary-conninfo".toList, "host=db port=5432".toList)]
  type := .time
  target := "2018-11-19 16:10:11".toList
  cfgExe := "/usr/bin/pgbackrest".toList
  optionList := [pgPathOption "/my pg".toList]

theorem restoreRecoveryConf_reads_space : ∃ options text,
    restoreRecoveryOption spaceOption 120000 = .ok options ∧
      restoreRecoveryConf spaceOption 120000 "LABEL".toList = .ok text ∧
      ReadsBack spaceOption options text := by
  have users : ∀ pair ∈ userOptions spaceOption, isName pair.1 = true ∧ isVerbatim pair.2 = true := by
    decide +kernel
  refine ⟨_, _, rfl, rfl, (restoreRecoveryConf_reads_iff rfl rfl (by decide) (by decide +kernel)).mpr ?_⟩
  refine ⟨fun pair mem => (users pair mem).1, ?_, (fun _ => by decide +kernel),
    (fun _ mem => by cases mem), fun _ => ⟨⟨by decide, by decide, List.all_eq_true.mp (by decide +kernel)⟩, ?_⟩⟩
  · intro front pair back split _ _
    exact (users pair (by rw [split]; simp)).2
  · intro o mem _ value isValue item isItem
    rw [List.mem_singleton.mp mem] at isValue
    cases isValue
    rw [List.mem_singleton.mp isItem]
    decide +kernel

/-- The name of a restore point with an apostrophe. -/
def quoteOption : RecoveryOption where
  type := .name
  target := "it's".toList
  cfgExe := "/usr/bin/pgbackrest".toList

def dollarOption : RecoveryOption where
  cfgExe := "/usr/bin/pgbackrest".toList
  optionList := [pgPathOption "/pg$data".toList]

theorem restoreRecoveryConf_quote :
    (∃ options text, restoreRecoveryOption quoteOption 120000 = .ok options ∧
      restoreRecoveryConf quoteOption 120000 "LABEL".toList = .ok text ∧
      (∀ pair ∈ options, '\n' ∉ pair.2) ∧ ¬ReadsBack quoteOption options text) ∧
    ∃ options text, restoreRecoveryOption dollarOption 120000 = .ok options ∧
      restoreRecoveryConf dollarOption 120000 "LABEL".toList = .ok text ∧
      (∀ pair ∈ options, '\n' ∉ pair.2) ∧ ¬ReadsBack dollarOption options text := by
  refine ⟨⟨_, _, rfl, rfl, by decide +kernel, fun reads => ?_⟩,
    ⟨_, _, rfl, rfl, by decide +kernel, fun reads => ?_⟩⟩
  · obtain ⟨entries, read, -⟩ := reads.conf
    have none : readConf ("# Recovery settings generated by pgBackRest restore on LABEL\n".toList ++
        ("restore_command = '/usr/bin/pgbackrest archive-get %f \"%p\"'\n".toList ++
          "recovery_target_name = 'it's'\n".toList)) = none := by decide +kernel
    exact absurd (read.symm.trans none) (by simp)
  · have command := reads.command (by decide +kernel) (restoreCommandStr dollarOption) (by decide +kernel)
    have none : ShellWords.words (restoreCommandStr dollarOption) = none := by decide +kernel
    rw [none] at command
    cases command

end File

end RecoveryConf
