import Backrest.Text

/-!
# Variants and their JSON text

A variant is a tree of null, booleans, integers, strings, lists and key/value objects. There
are separate routines for a value of an object, for an element of a list in an object and for
an element of any other list; each is kept as the source has it.
-/

namespace Json

open Text

/-- The variants that `varStrForce` turns into text by themselves. -/
inductive Scalar where
  | bool (value : Bool)
  | int (value : Int32)
  | int64 (value : Int64)
  | uint (value : UInt32)
  | uint64 (value : UInt64)
  deriving DecidableEq

/-- The keys of an object are in the order in which they were added. -/
inductive Variant where
  | null
  | scalar (value : Scalar)
  | string (value : Str)
  | list (items : List Variant)
  | kv (pairs : List (Str × Variant))

theorem Variant.induct {motive : Variant → Prop} (null : motive .null)
    (scalar : ∀ value, motive (.scalar value)) (string : ∀ value, motive (.string value))
    (list : ∀ items, (∀ v ∈ items, motive v) → motive (.list items))
    (kv : ∀ pairs, (∀ pair ∈ pairs, motive pair.2) → motive (.kv pairs)) (v : Variant) :
    motive v := by
  refine @Variant.rec motive (fun items => ∀ v ∈ items, motive v)
    (fun pairs => ∀ pair ∈ pairs, motive pair.2) (fun pair => motive pair.2)
    null scalar string list kv ?_ ?_ ?_ ?_ ?_ v
  · exact fun _ mem => absurd mem List.not_mem_nil
  · exact fun v items hv hitems => List.forall_mem_cons.mpr ⟨hv, hitems⟩
  · exact fun _ mem => absurd mem List.not_mem_nil
  · exact fun pair pairs hpair hpairs => List.forall_mem_cons.mpr ⟨hpair, hpairs⟩
  · exact fun key v hv => hv

section Text

/-- `%d` -/
def fmtInt (n : Int) : Str := if n < 0 then '-' :: fmtUInt n.natAbs else fmtUInt n.natAbs

def jsonFromBool (value : Bool) : Str := if value then "true".toList else "false".toList

def jsonFromInt (number : Int32) : Str := fmtInt number.toInt

def jsonFromInt64 (number : Int64) : Str := fmtInt number.toInt

def jsonFromUInt (number : UInt32) : Str := fmtUInt number.toNat

def jsonFromUInt64 (number : UInt64) : Str := fmtUInt number.toNat

/-- `varStrForce` on the types that are not strings. -/
def varStrForce : Scalar → Str
  | .bool value => if value then "true".toList else "false".toList
  | .int value => fmtInt value.toInt
  | .int64 value => fmtInt value.toInt
  | .uint value => fmtUInt value.toNat
  | .uint64 value => fmtUInt value.toNat

def escape (c : Char) : Str :=
  if c = '"' then "\\\"".toList
  else if c = '\\' then "\\\\".toList
  else if c = '\n' then "\\n".toList
  else if c = '\r' then "\\r".toList
  else if c = '\t' then "\\t".toList
  else if c = '\x08' then "\\b".toList
  else if c = '\x0c' then "\\f".toList
  else [c]

def jsonFromStrInternal (string : Str) : Str := '"' :: string.flatMap escape ++ ['"']

/-- The pairs in the order of the sorted keys, each key with the value that is found for it. -/
def sortedPairs {α : Type} (null : α) (pairs : List (Str × α)) : List (Str × α) :=
  (strLstSort (pairs.map (·.1)) .asc).map fun key => (key, (pairs.lookup key).getD null)

/-- The keys are put between quotes as they are. -/
def pairText (pair : Str × Str) : Str := '"' :: pair.1 ++ "\":".toList ++ pair.2

/-- `jsonFromKvInternal`, given the texts of the values. -/
def kvText (texts : List (Str × Str)) : Str :=
  '\x7b' :: strLstJoin ((sortedPairs "null".toList texts).map pairText) [','] ++ ['\x7d']

def listText (texts : List Str) : Str := '[' :: strLstJoin texts [','] ++ [']']

mutual

/-- A value of an object. -/
def kvValue : Variant → Str
  | .null => "null".toList
  | .kv pairs => kvText (kvValues pairs)
  | .list items => listText (arrayValues items)
  | .string value => jsonFromStrInternal value
  | .scalar value => varStrForce value

def kvValues : List (Str × Variant) → List (Str × Str)
  | [] => []
  | (key, value) :: pairs => (key, kvValue value) :: kvValues pairs

/-- An element of a list that is a value of an object. -/
def arrayValue : Variant → Str
  | .null => "null".toList
  | .string value => jsonFromStrInternal value
  | .kv pairs => kvText (kvValues pairs)
  | .list items => listText (varSubs items)
  | .scalar value => varStrForce value

def arrayValues : List Variant → List Str
  | [] => []
  | value :: items => arrayValue value :: arrayValues items

/-- An element of a list that `jsonFromVar` is called on. -/
def varSub : Variant → Str
  | .null => "null".toList
  | .scalar (.bool value) => jsonFromBool value
  | .kv pairs => kvText (kvValues pairs)
  | .list items => listText (varSubs items)
  | .scalar (.int value) => jsonFromInt value
  | .scalar (.int64 value) => jsonFromInt64 value
  | .scalar (.uint value) => jsonFromUInt value
  | .scalar (.uint64 value) => jsonFromUInt64 value
  | .string value => jsonFromStrInternal value

def varSubs : List Variant → List Str
  | [] => []
  | value :: items => varSub value :: varSubs items

end

def jsonFromKv (kv : List (Str × Variant)) : Str := kvText (kvValues kv)

/-- A signed integer is rendered in a list or an object only. -/
def jsonFromVar : Variant → Except Error Str
  | .null => .ok "null".toList
  | .scalar (.bool value) => .ok (jsonFromBool value)
  | .scalar (.uint value) => .ok (jsonFromUInt value)
  | .scalar (.uint64 value) => .ok (jsonFromUInt64 value)
  | .string value => .ok (jsonFromStrInternal value)
  | .list items => .ok (listText (varSubs items))
  | .kv pairs => .ok (kvText (kvValues pairs))
  | .scalar _ => .error ⟨.jsonFormatError, "variant type is invalid".toList⟩

end Text

section Positions

theorem kvValues_eq (pairs : List (Str × Variant)) :
    kvValues pairs = pairs.map fun pair => (pair.1, kvValue pair.2) := by
  induction pairs with
  | nil => rfl
  | cons pair pairs ih => rw [kvValues, ih, List.map_cons]

theorem arrayValues_eq (items : List Variant) : arrayValues items = items.map arrayValue := by
  induction items with
  | nil => rfl
  | cons value items ih => rw [arrayValues, ih, List.map_cons]

theorem varSubs_eq (items : List Variant) : varSubs items = items.map varSub := by
  induction items with
  | nil => rfl
  | cons value items ih => rw [varSubs, ih, List.map_cons]

theorem varStrForce_eq (value : Scalar) : varStrForce value = varSub (.scalar value) := by
  cases value <;> rw [varSub] <;> rfl

/-- The three routines write a value in the same way. -/
theorem positions_agree (v : Variant) : kvValue v = varSub v ∧ arrayValue v = varSub v := by
  induction v using Variant.induct with
  | null => exact ⟨by rw [kvValue, varSub], by rw [arrayValue, varSub]⟩
  | scalar value =>
    rw [kvValue, arrayValue]
    exact ⟨varStrForce_eq value, varStrForce_eq value⟩
  | string value => exact ⟨by rw [kvValue, varSub], by rw [arrayValue, varSub]⟩
  | list items ih =>
    have same : arrayValues items = varSubs items := by
      rw [arrayValues_eq, varSubs_eq]
      exact List.map_congr_left fun v mem => (ih v mem).2
    exact ⟨by rw [kvValue, varSub, same], by rw [arrayValue, varSub]⟩
  | kv pairs ih => exact ⟨by rw [kvValue, varSub], by rw [arrayValue, varSub]⟩

end Positions

end Json
