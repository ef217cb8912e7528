import Backrest.Base128
import Backrest.StringId
import Backrest.Text

/-!
# Writing packs

A pack is a sequence of fields with increasing ids. Each field starts with a
tag that holds its type, the distance to the id before it and, where it fits,
its value. Containers count their ids apart, so the writer keeps a stack with
the last id and the number of nulls since then, the top entry first. The
writer appends to a buffer of its own or goes through a buffer to io.
-/

namespace Pack

open Text StringId

inductive PackType where
  | array
  | bin
  | bool
  | i32
  | i64
  | obj
  | mode
  | pack
  | ptr
  | str
  | strId
  | time
  | u32
  | u64
  deriving DecidableEq

/-- `strIdToStr` of the type. -/
def PackType.toStr : PackType → Str
  | .array => "array".toList
  | .bin => "bin".toList
  | .bool => "bool".toList
  | .i32 => "i32".toList
  | .i64 => "i64".toList
  | .obj => "obj".toList
  | .mode => "mode".toList
  | .pack => "pack".toList
  | .ptr => "ptr".toList
  | .str => "str".toList
  | .strId => "strid".toList
  | .time => "time".toList
  | .u32 => "u32".toList
  | .u64 => "u64".toList

inductive PackTypeMap where
  | unknown
  | array
  | bool
  | i32
  | i64
  | obj
  | ptr
  | str
  | u32
  | u64
  | strId
  | time
  | bin
  | pack
  | mode
  deriving DecidableEq

def PackTypeMap.value : PackTypeMap → Nat
  | unknown => 0
  | array => 1
  | bool => 2
  | i32 => 3
  | i64 => 4
  | obj => 5
  | ptr => 6
  | str => 7
  | u32 => 8
  | u64 => 9
  | strId => 10
  | time => 15
  | bin => 16
  | pack => 17
  | mode => 18

structure PackTypeMapData where
  type : Option PackType := none
  valueSingleBit : Bool := false
  valueMultiBit : Bool := false
  size : Bool := false
  deriving DecidableEq

def packTypeMapData : PackTypeMap → PackTypeMapData
  | .unknown => {}
  | .array => { type := some .array }
  | .bool => { type := some .bool, valueSingleBit := true }
  | .i32 => { type := some .i32, valueMultiBit := true }
  | .i64 => { type := some .i64, valueMultiBit := true }
  | .obj => { type := some .obj }
  | .ptr => { type := some .ptr, valueMultiBit := true }
  | .str => { type := some .str, valueSingleBit := true, size := true }
  | .u32 => { type := some .u32, valueMultiBit := true }
  | .u64 => { type := some .u64, valueMultiBit := true }
  | .strId => { type := some .strId, valueMultiBit := true }
  | .time => { type := some .time, valueMultiBit := true }
  | .bin => { type := some .bin, valueSingleBit := true, size := true }
  | .pack => { type := some .pack, size := true }
  | .mode => { type := some .mode, valueMultiBit := true }

structure PackTagStack where
  typeMap : PackTypeMap
  idLast : Nat := 0
  nullTotal : Nat := 0
  deriving DecidableEq

def uintMax : Nat := 2 ^ 32 - 1

def packUInt64SizeMax : Nat := 10

/-- The size of the internal buffer is there when the writer goes to io; `written` is what
`ioWrite` was given. -/
structure PackWrite where
  write : Option Nat := none
  written : Bytes := []
  buffer : Bytes := []
  tagStackTop : PackTagStack := { typeMap := .obj }
  tagStack : List PackTagStack := []
  deriving DecidableEq

def pckWriteNewBuf (buffer : Bytes) : PackWrite := { buffer }

def pckWriteBuffer (this : PackWrite) (buffer : Bytes) : PackWrite :=
  match this.write with
  | none => { this with buffer := this.buffer ++ buffer }
  | some size =>
    if size - this.buffer.length ≥ buffer.length then
      { this with buffer := this.buffer ++ buffer }
    else
      let this := { this with written := this.written ++ this.buffer, buffer := [] }
      if size ≥ buffer.length then { this with buffer }
      else { this with written := this.written ++ buffer }

def pckWriteU64Internal (this : PackWrite) (value : Nat) : PackWrite :=
  pckWriteBuffer this (Base128.encode packUInt64SizeMax value)

/-- `CHECK` -/
def checkError (condition : String) : Error :=
  ⟨.assertError, "check '".toList ++ condition.toList ++ "' failed".toList⟩

/-- `ASSERT` -/
def assertError (condition : String) : Error :=
  ⟨.assertError, "assertion '".toList ++ condition.toList ++ "' failed".toList⟩

/-- The tag byte, the rest of the id distance and the rest of the value. -/
def tagParts (typeMap : PackTypeMap) (tagId value : Nat) : Nat × Nat × Nat :=
  let tag := if typeMap.value ≥ 0xf then 0xf0 else typeMap.value <<< 4
  if (packTypeMapData typeMap).valueMultiBit then
    if value < 2 then
      let tag := tag ||| (value &&& 0x1) <<< 2 ||| (tagId &&& 0x1)
      (if tagId >>> 1 > 0 then tag ||| 0x2 else tag, tagId >>> 1, value >>> 1)
    else
      let tag := tag ||| 0x8 ||| (tagId &&& 0x3)
      (if tagId >>> 2 > 0 then tag ||| 0x4 else tag, tagId >>> 2, value)
  else if (packTypeMapData typeMap).valueSingleBit then
    let tag := tag ||| (value &&& 0x1) <<< 3 ||| (tagId &&& 0x3)
    (if tagId >>> 2 > 0 then tag ||| 0x4 else tag, tagId >>> 2, value >>> 1)
  else
    let tag := tag ||| (tagId &&& 0x7)
    (if tagId >>> 3 > 0 then tag ||| 0x8 else tag, tagId >>> 3, value)

/-- The tag, the rest of the type, the rest of the id distance and the rest of the value. -/
def writeParts (this : PackWrite) (typeMap : PackTypeMap) (tag tagId value : Nat) : PackWrite :=
  let this := pckWriteBuffer this [UInt8.ofNat tag]
  let this := if typeMap.value ≥ 0xf then pckWriteU64Internal this (typeMap.value - 0xf) else this
  let this := if tagId > 0 then pckWriteU64Internal this tagId else this
  if value > 0 then pckWriteU64Internal this value else this

def nextId (top : PackTagStack) (id : Nat) : Nat :=
  if id = 0 then (top.idLast + top.nullTotal + 1) % 2 ^ 32 else id

def pckWriteTag (this : PackWrite) (typeMap : PackTypeMap) (id value : Nat) :
    Except Error PackWrite :=
  let top := this.tagStackTop
  if id ≠ 0 ∧ ¬id > top.idLast then .error (checkError "id > this->tagStackTop->idLast")
  else
    let tagId := (nextId top id + 2 ^ 32 - top.idLast - 1) % 2 ^ 32
    let (tag, tagId, value) := tagParts typeMap tagId value
    .ok { writeParts this typeMap tag tagId value with
      tagStackTop := { top with idLast := nextId top id, nullTotal := 0 } }

def pckWriteNull (this : PackWrite) : PackWrite :=
  { this with
    tagStackTop := { this.tagStackTop with nullTotal := (this.tagStackTop.nullTotal + 1) % 2 ^ 32 } }

def pckWriteDefaultNull (this : PackWrite) (defaultWrite defaultEqual : Bool)
    (write : Except Error PackWrite) : Except Error PackWrite :=
  if !defaultWrite && defaultEqual then .ok (pckWriteNull this) else write

section Container

/-- The tag of a container and a new entry of the stack. -/
def writeBegin (typeMap : PackTypeMap) (this : PackWrite) (id : Nat) : Except Error PackWrite := do
  let this ← pckWriteTag this typeMap id 0
  .ok { this with tagStackTop := { typeMap }, tagStack := this.tagStackTop :: this.tagStack }

/-- The end of a container; the entry below becomes the top. -/
def writeEnd (typeMap : PackTypeMap) (this : PackWrite) : Except Error PackWrite :=
  match this.tagStack with
  | [] => .error (assertError "lstSize(this->tagStack) != 1")
  | below :: rest =>
    if this.tagStackTop.typeMap = typeMap then
      .ok { pckWriteU64Internal this 0 with tagStackTop := below, tagStack := rest }
    else .error (assertError "lstGetLast(this->tagStack)->typeMap == typeMap")

def pckWriteArrayBegin : PackWrite → Nat → Except Error PackWrite := writeBegin .array

def pckWriteArrayEnd : PackWrite → Except Error PackWrite := writeEnd .array

def pckWriteObjBegin : PackWrite → Nat → Except Error PackWrite := writeBegin .obj

def pckWriteObjEnd : PackWrite → Except Error PackWrite := writeEnd .obj

end Container

section Data

/-- The size and the bytes, where there are any. -/
def writeData (typeMap : PackTypeMap) (this : PackWrite) (value : Bytes) (id : Nat) :
    Except Error PackWrite := do
  let this ← pckWriteTag this typeMap id (if value.isEmpty then 0 else 1)
  if value.isEmpty then .ok this
  else .ok (pckWriteBuffer (pckWriteU64Internal this value.length) value)

def pckWriteBin (this : PackWrite) (value : Option Bytes) (id : Nat) : Except Error PackWrite :=
  pckWriteDefaultNull this false (value == none) (match value with
    | none => .error (assertError "value != NULL")
    | some value => writeData .bin this value id)

def pckWriteStr (this : PackWrite) (value : Option Bytes) (id : Nat) (defaultWrite : Bool)
    (defaultValue : Option Bytes) : Except Error PackWrite :=
  pckWriteDefaultNull this defaultWrite (value == defaultValue) (match value with
    | none => .error (assertError "value != NULL")
    | some value => writeData .str this value id)

/-- The strings of a list, each with the next id. -/
def writeStrs : PackWrite → List (Option Bytes) → Except Error PackWrite
  | this, [] => .ok this
  | this, value :: rest => do writeStrs (← pckWriteStr this value 0 false none) rest

def pckWriteStrLst (this : PackWrite) (value : Option (List (Option Bytes))) (id : Nat) :
    Except Error PackWrite :=
  pckWriteDefaultNull this false (value == none) (match value with
    | none => .error (assertError "value != NULL")
    | some value => do pckWriteArrayEnd (← writeStrs (← pckWriteArrayBegin this id) value))

def pckWriteEnd (this : PackWrite) : PackWrite :=
  let this := pckWriteU64Internal this 0
  match this.write with
  | none => this
  | some _ => { this with written := this.written ++ this.buffer, buffer := [] }

/-- `value` is the writer of the inner pack. -/
def pckWritePack (this : PackWrite) (value : Option PackWrite) (id : Nat) : Except Error PackWrite :=
  pckWriteDefaultNull this false (value == none) (match value with
    | none => .error (assertError "value != NULL")
    | some value => do
      let this ← pckWriteTag this .pack id 0
      .ok (pckWriteBuffer (pckWriteU64Internal this value.buffer.length) value.buffer))

end Data

section Scalar

/-- A type whose value goes into the tag or right behind it. Reading the number back gives the
value, and the number fits the type. -/
structure Scalar (α : Type) where
  typeMap : PackTypeMap
  toNat : α → Nat
  ofNat : Nat → α
  ofNat_toNat : ∀ value, ofNat (toNat value) = value
  fits : ∀ value, toNat value < 2 ^ 64
  bits : ((packTypeMapData typeMap).valueMultiBit = true) ∨
    ((packTypeMapData typeMap).valueSingleBit = true ∧
      (packTypeMapData typeMap).size = false ∧ ∀ value, toNat value < 2)
  noSize : (packTypeMapData typeMap).size = false

def unsigned (typeMap : PackTypeMap) (multi : (packTypeMapData typeMap).valueMultiBit = true)
    (noSize : (packTypeMapData typeMap).size = false) {w : Nat} (width : w ≤ 64) :
    Scalar (BitVec w) where
  typeMap := typeMap
  toNat value := value.toNat
  ofNat value := BitVec.ofNat w value
  ofNat_toNat value := by simp
  fits value := Nat.lt_of_lt_of_le value.isLt (Nat.pow_le_pow_right (by decide) width)
  bits := Or.inl multi
  noSize := noSize

/-- `cvtInt32ToZigZag` and `cvtInt64ToZigZag` fold the sign, by the width of the value. -/
def signed (typeMap : PackTypeMap) (multi : (packTypeMapData typeMap).valueMultiBit = true)
    (noSize : (packTypeMapData typeMap).size = false) {w : Nat} (width : w ≤ 64) :
    Scalar (BitVec w) where
  typeMap := typeMap
  toNat value := (Base128.toZigZag value).toNat
  ofNat value := Base128.fromZigZag (BitVec.ofNat w value)
  ofNat_toNat value := by rw [BitVec.ofNat_toNat, BitVec.setWidth_eq, Base128.fromZigZag_toZigZag]
  fits value :=
    Nat.lt_of_lt_of_le (Base128.toZigZag value).isLt (Nat.pow_le_pow_right (by decide) width)
  bits := Or.inl multi
  noSize := noSize

def Scalar.bool : Scalar Bool where
  typeMap := .bool
  toNat := Bool.toNat
  ofNat value := value != 0
  ofNat_toNat value := by cases value <;> rfl
  fits value := by cases value <;> decide
  bits := Or.inr ⟨rfl, rfl, fun value => by cases value <;> decide⟩
  noSize := rfl

def Scalar.i32 : Scalar (BitVec 32) := signed .i32 rfl rfl (by decide)

def Scalar.i64 : Scalar (BitVec 64) := signed .i64 rfl rfl (by decide)

def Scalar.mode : Scalar (BitVec 32) := unsigned .mode rfl rfl (by decide)

def Scalar.ptr : Scalar (BitVec 64) := unsigned .ptr rfl rfl (by decide)

def Scalar.strId : Scalar (BitVec 64) := unsigned .strId rfl rfl (by decide)

def Scalar.time : Scalar (BitVec 64) := signed .time rfl rfl (by decide)

def Scalar.u32 : Scalar (BitVec 32) := unsigned .u32 rfl rfl (by decide)

def Scalar.u64 : Scalar (BitVec 64) := unsigned .u64 rfl rfl (by decide)

def writeScalar {α : Type} [DecidableEq α] (scalar : Scalar α) (this : PackWrite) (value : α)
    (id : Nat) (defaultWrite : Bool) (defaultValue : α) : Except Error PackWrite :=
  pckWriteDefaultNull this defaultWrite (value == defaultValue)
    (pckWriteTag this scalar.typeMap id (scalar.toNat value))

def pckWriteBool := writeScalar Scalar.bool

def pckWriteI32 := writeScalar Scalar.i32

def pckWriteI64 := writeScalar Scalar.i64

def pckWriteMode := writeScalar Scalar.mode

/-- The default of a pointer is always NULL. -/
def pckWritePtr (this : PackWrite) (value : BitVec 64) (id : Nat) (defaultWrite : Bool) :
    Except Error PackWrite :=
  writeScalar Scalar.ptr this value id defaultWrite 0

def pckWriteStrId := writeScalar Scalar.strId

def pckWriteTime := writeScalar Scalar.time

def pckWriteU32 := writeScalar Scalar.u32

def pckWriteU64 := writeScalar Scalar.u64

end Scalar

end Pack
