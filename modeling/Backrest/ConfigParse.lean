import Mathlib.Data.List.Basic
import Mathlib.Logic.Function.Basic
import Backrest.Effects
import Backrest.ExecParam

/-!
# Options with a key

Options of a group are given with a key, as in `pg2-path`. After the command line, the
environment and the file were read, the keys that are used by any option of a group are
given an index each. Then the options are resolved in an order in which an option comes
after the one it depends on, and the value of each key is stored at the index of the key.
-/

namespace ConfigParse

open Text Effects ExecParam

def CFG_OPTION_KEY_MAX : Nat := 256

inductive ConfigOptionGroup
  | pg
  | repo
  deriving DecidableEq

def ConfigOptionGroup.name : ConfigOptionGroup → Str
  | pg => "pg".toList
  | repo => "repo".toList

inductive ConfigOptionType
  | boolean
  | hash
  | integer
  | list
  | path
  | size
  | string
  | time
  deriving DecidableEq

/-- The value of an option at one index. -/
inductive Value
  | bool (value : Bool)
  | int64 (value : Int)
  | str (value : Str)
  | varLst (list : List Str)
  | kv (list : List (Str × Str))
  deriving DecidableEq

structure Depend (ι : Type) where
  option : ι
  list : List Str

structure ParseRules (ι : Type) where
  /-- All options by id. -/
  option : List ι
  optionResolveOrder : List ι
  command : Str
  help : Bool
  name : ι → Str
  type : ι → ConfigOptionType
  group : ι → Option ConfigOptionGroup
  valid : ι → Bool
  stanzaSection : ι → Bool
  depends : ι → Option (Depend ι)
  /-- The default with the type of the option. -/
  default : ι → Option Value
  required : ι → Bool
  /-- Convert the texts given for an option with a key that is not a boolean, and check them. -/
  load : ι → Nat → List Str → Except Error Value
  mem_option : ∀ o, o ∈ option
  mem_order : ∀ o, o ∈ optionResolveOrder
  order_nodup : optionResolveOrder.Nodup
  depend_other : ∀ o, ∀ depend ∈ depends o, depend.option ≠ o
  /-- No option comes before one it depends on. -/
  order_depend : optionResolveOrder.Pairwise fun o p => ∀ depend ∈ depends o, depend.option ≠ p

structure ParseOptionValue where
  found : Bool := false
  negate : Bool := false
  reset : Bool := false
  source : ConfigSource := .default
  valueList : List Str := []
  deriving DecidableEq

structure ParseOption where
  indexList : List ParseOptionValue := []
  short : indexList.length ≤ CFG_OPTION_KEY_MAX := by decide

section Parse

variable {ι : Type} [DecidableEq ι] (rules : ParseRules ι)

def cfgParseOptionKeyIdxName (optionId : ι) (keyIdx : Nat) : Str :=
  match rules.group optionId with
  | some group => group.name ++ fmtUInt (keyIdx + 1) ++ (rules.name optionId).drop group.name.length
  | none => rules.name optionId

/-! ## The keys of the groups -/

/-- What is known of a group while the options are scanned. -/
structure GroupScan where
  valid : Bool := false
  indexTotal : Nat := 0
  groupIdxMap : Nat → Bool := fun _ => false

def scanValue (this : GroupScan) (value : ParseOptionValue × Nat) : GroupScan :=
  if value.1.found && !value.1.reset then
    if !this.groupIdxMap value.2 then
      { this with
        indexTotal := this.indexTotal + 1
        groupIdxMap := Function.update this.groupIdxMap value.2 true }
    else this
  else this

def scanOption (parse : ι → ParseOption) (scan : ConfigOptionGroup → GroupScan) (optionId : ι) :
    Except Error (ConfigOptionGroup → GroupScan) :=
  if !rules.valid optionId then
    if (parse optionId).indexList ≠ [] then
      throw ⟨.optionInvalidError, "option '".toList ++ rules.name optionId ++
        "' not valid for command '".toList ++ rules.command ++ "'".toList⟩
    else return scan
  else
    match rules.group optionId with
    | none => return scan
    | some group =>
      return Function.update scan group
        ((parse optionId).indexList.zipIdx.foldl scanValue { scan group with valid := true })

structure OptionGroup where
  valid : Bool
  indexTotal : Nat
  indexMap : List Nat

def OptionGroup.keys (this : OptionGroup) : List Nat := this.indexMap.take this.indexTotal

def writeIndex (used : Nat → Bool) (written : List Nat × Nat) (optionKeyIdx : Nat) :
    List Nat × Nat :=
  if used optionKeyIdx then (written.1.set written.2 optionKeyIdx, written.2 + 1) else written

def writeGroup (group : ConfigOptionGroup) (scan : GroupScan) : OptionGroup :=
  let indexMap := List.replicate CFG_OPTION_KEY_MAX 0
  if !scan.valid then ⟨scan.valid, scan.indexTotal, indexMap⟩
  else if scan.indexTotal = 0 then ⟨scan.valid, 1, indexMap⟩
  else
    let start := if group = .pg then 1 else 0
    ⟨scan.valid, scan.indexTotal,
      ((List.range' start (CFG_OPTION_KEY_MAX - start)).foldl (writeIndex scan.groupIdxMap)
        (indexMap, start)).1⟩

def resolveGroups (parse : ι → ParseOption) : Except Error (ConfigOptionGroup → OptionGroup) := do
  let scan ← rules.option.foldlM (scanOption rules parse) fun _ => {}
  return fun group => writeGroup group (scan group)

/-! ## The values -/

structure ConfigOptionValue where
  negate : Bool := false
  reset : Bool := false
  source : ConfigSource := .default
  value : Option Value := none
  deriving DecidableEq

structure Config (ι : Type) where
  optionGroup : ConfigOptionGroup → OptionGroup
  /-- The values of an option by index, if the option is valid. -/
  index : ι → Option (List ConfigOptionValue)

def Config.value (this : Config ι) (optionId : ι) (optionIdx : Nat) : Option Value :=
  ((this.index optionId).bind (·[optionIdx]?)).bind (·.value)

def dependText : Value → Option Str
  | .bool value => some (if value then ['1'] else ['0'])
  | .str value => some value
  | _ => none

def optionSet (optionId : ι) (value : ParseOptionValue) : Bool :=
  value.found && (decide (rules.type optionId = .boolean) || !value.negate) && !value.reset

def dependError (optionId : ι) (depend : Depend ι) (optionKeyIdx : Nat) : Error :=
  let name := cfgParseOptionKeyIdxName rules depend.option optionKeyIdx
  let isBool := rules.type depend.option = .boolean
  let dependOptionName := if isBool ∧ ['0'] ∈ depend.list then "no-".toList ++ name else name
  let dependValueList := if isBool then [] else depend.list.map fun item => '\'' :: item ++ ['\'']
  let errorValue := match dependValueList with
    | [] => []
    | [item] => " = ".toList ++ item
    | items => " in (".toList ++ [',', ' '].intercalate items ++ ")".toList
  ⟨.optionInvalidError, "option '".toList ++ cfgParseOptionKeyIdxName rules optionId optionKeyIdx ++
    "' not valid without option '".toList ++ dependOptionName ++ "'".toList ++ errorValue⟩

def dependResolved (config : Config ι) (optionId : ι) (optionIdx optionKeyIdx : Nat)
    (value : ParseOptionValue) : Except Error Bool :=
  match rules.depends optionId with
  | none => return true
  | some depend =>
    match config.value depend.option optionIdx with
    | none =>
      if optionSet rules optionId value && value.source = .param then
        throw (dependError rules optionId ⟨depend.option, []⟩ optionKeyIdx)
      else return false
    | some dependValue =>
      if depend.list = [] || depend.list.any (fun item => dependText dependValue = some item) then
        return true
      else if optionSet rules optionId value && value.source = .param then
        throw (dependError rules optionId depend optionKeyIdx)
      else return false

def requiredError (optionId : ι) (optionKeyIdx : Nat) : Error :=
  ⟨.optionRequiredError, rules.command ++ " command requires option: ".toList ++
    cfgParseOptionKeyIdxName rules optionId optionKeyIdx ++
    if rules.stanzaSection optionId then "\nHINT: does this stanza exist?".toList else []⟩

def loadValue (optionId : ι) (optionKeyIdx : Nat) (value : ParseOptionValue) : Except Error Value :=
  if rules.type optionId = .boolean then return .bool (!value.negate)
  else rules.load optionId optionKeyIdx value.valueList

def keyIdxOf (config : Config ι) (optionId : ι) (optionIdx : Nat) : Nat :=
  match rules.group optionId with
  | some group => (config.optionGroup group).indexMap.getD optionIdx 0
  | none => 0

def loadIndex (parse : ι → ParseOption) (config : Config ι) (optionId : ι) (optionIdx : Nat) :
    Except Error ConfigOptionValue := do
  let optionKeyIdx := keyIdxOf rules config optionId optionIdx
  let value := (parse optionId).indexList.getD optionKeyIdx {}
  let init : ConfigOptionValue := { negate := value.negate, reset := value.reset }
  if ← dependResolved rules config optionId optionIdx optionKeyIdx value then
    if optionSet rules optionId value then
      return { init with
        source := value.source, value := some (← loadValue rules optionId optionKeyIdx value) }
    else if value.negate then
      return { init with source := value.source }
    else
      match rules.default optionId with
      | some default => return { init with value := some default }
      | none =>
        if rules.required optionId && !rules.help then
          throw (requiredError rules optionId optionKeyIdx)
        else return init
  else return init

def loadOption (parse : ι → ParseOption) (config : Config ι) (optionId : ι) :
    Except Error (Config ι) :=
  if !rules.valid optionId then return config
  else do
    let optionListIndexTotal := match rules.group optionId with
      | some group => (config.optionGroup group).indexTotal
      | none => 1
    let values ← (List.range optionListIndexTotal).mapM (loadIndex rules parse config optionId)
    return { config with index := Function.update config.index optionId (some values) }

/-- The phases that come after the options were read. -/
def configParse (parse : ι → ParseOption) : Except Error (Config ι) := do
  let optionGroup ← resolveGroups rules parse
  rules.optionResolveOrder.foldlM (loadOption rules parse) ⟨optionGroup, fun _ => none⟩

end Parse

end ConfigParse
