import Backrest.Pack
import Backrest.Effects

/-!
# Reading packs

The reader holds what is left of its source, the tag it has read last and the
stack of containers. A read asks for an id, or for the one after the last: the
reader skips the fields before it, and a field that is not there is null. From
a buffer the reader takes what it needs; from io it fetches no more than it was
asked for and no more than the io buffer holds.
-/

namespace Pack

open Text StringId

/-- `CHECK` that the type is one of the table. -/
def PackTypeMap.ofCode : Nat → Except Error PackTypeMap
  | 1 => .ok .array
  | 2 => .ok .bool
  | 3 => .ok .i32
  | 4 => .ok .i64
  | 5 => .ok .obj
  | 6 => .ok .ptr
  | 7 => .ok .str
  | 8 => .ok .u32
  | 9 => .ok .u64
  | 10 => .ok .strId
  | 15 => .ok .time
  | 16 => .ok .bin
  | 17 => .ok .pack
  | 18 => .ok .mode
  | _ => .error (checkError ("this->tagNextTypeMap < PACK_TYPE_MAP_SIZE && " ++
      "packTypeMapData[this->tagNextTypeMap].type != 0"))

/-- The size of the io buffer is there when the reader reads from io; `rest` is what is left of the
source. -/
structure PackRead where
  read : Option Nat := none
  rest : Bytes
  tagNextId : Nat := 0
  tagNextTypeMap : PackTypeMap := .unknown
  tagNextValue : Nat := 0
  tagStackTop : PackTagStack := { typeMap := .obj }
  tagStack : List PackTagStack := []
  deriving DecidableEq

def pckReadNew (bufferSize : Nat) (source : Bytes) : PackRead :=
  { read := some bufferSize, rest := source }

def pckReadNewBuf (buffer : Bytes) : PackRead := { rest := buffer }

def eofError : Error := ⟨.formatError, "unexpected EOF".toList⟩

/-- How many bytes can be read at once. -/
def pckReadBuffer (this : PackRead) (size : Nat) : Except Error Nat :=
  let remaining := match this.read with
    | none => this.rest.length
    | some sizeAlloc => min (min size sizeAlloc) this.rest.length
  if remaining < size then
    if remaining < 1 then .error eofError else .ok remaining
  else .ok size

def nextByte (this : PackRead) : Except Error (UInt8 × PackRead) := do
  let _ ← pckReadBuffer this 1
  match this.rest with
  | [] => .error eofError
  | byte :: rest => .ok (byte, { this with rest })

/-- Read data in chunks until all of it is there. -/
def readChunks : Nat → Nat → PackRead → Except Error (Bytes × PackRead)
  | 0, _, this => .ok ([], this)
  | fuel + 1, size, this =>
    if size = 0 then .ok ([], this)
    else do
      let sizeRead ← pckReadBuffer this size
      let (bytes, after) ←
        readChunks fuel (size - sizeRead) { this with rest := this.rest.drop sizeRead }
      .ok (this.rest.take sizeRead ++ bytes, after)

def pckReadU64Internal (this : PackRead) : Except Error (Nat × PackRead) :=
  Base128.decode nextByte ⟨.formatError, "unterminated base-128 integer".toList⟩
    packUInt64SizeMax 0 0 this

def readData (this : PackRead) : Except Error (Bytes × PackRead) := do
  let (size, this) ← pckReadU64Internal this
  readChunks size size this

/-- The low bits of the id distance come with the tag, the rest behind it where the tag says so. -/
def readTagId (this : PackRead) (low : Nat) (more : Bool) (shift : Nat) :
    Except Error (Nat × PackRead) :=
  if more then do
    let (high, this) ← pckReadU64Internal this
    .ok (low ||| (high % 2 ^ 32) <<< shift % 2 ^ 32, this)
  else .ok (low, this)

def readTypeMap (this : PackRead) (tag : Nat) : Except Error (PackTypeMap × PackRead) :=
  if tag >>> 4 = 0xf then do
    let (high, this) ← pckReadU64Internal this
    .ok (← PackTypeMap.ofCode ((high % 2 ^ 32 + 0xf) % 2 ^ 32), this)
  else do
    .ok (← PackTypeMap.ofCode (tag >>> 4), this)

def readTagValue (this : PackRead) (typeMap : PackTypeMap) (tag : Nat) :
    Except Error (Nat × Nat × PackRead) :=
  if (packTypeMapData typeMap).valueMultiBit then
    if tag &&& 0x8 ≠ 0 then do
      let (tagId, this) ← readTagId this (tag &&& 0x3) (tag &&& 0x4 != 0) 2
      let (value, this) ← pckReadU64Internal this
      .ok (tagId, value, this)
    else do
      let (tagId, this) ← readTagId this (tag &&& 0x1) (tag &&& 0x2 != 0) 1
      .ok (tagId, tag >>> 2 &&& 0x3, this)
  else if (packTypeMapData typeMap).valueSingleBit then do
    let (tagId, this) ← readTagId this (tag &&& 0x3) (tag &&& 0x4 != 0) 2
    .ok (tagId, tag >>> 3 &&& 0x1, this)
  else do
    let (tagId, this) ← readTagId this (tag &&& 0x7) (tag &&& 0x8 != 0) 3
    .ok (tagId, 0, this)

def pckReadTagNext (this : PackRead) : Except Error (Bool × PackRead) := do
  let (byte, this) ← nextByte this
  -- the container is complete
  if byte.toNat = 0 then .ok (false, { this with tagNextId := uintMax })
  else
    let (typeMap, this) ← readTypeMap this byte.toNat
    let (tagId, value, this) ← readTagValue this typeMap byte.toNat
    .ok (true, { this with
      tagNextId := (tagId + this.tagStackTop.idLast + 1) % 2 ^ 32
      tagNextTypeMap := typeMap
      tagNextValue := value })

def skipData (this : PackRead) : Except Error PackRead :=
  if (packTypeMapData this.tagNextTypeMap).size ∧ this.tagNextValue ≠ 0 then do
    let (_, this) ← readData this
    .ok this
  else .ok this

def typeError (id : Nat) (actual expected : PackTypeMap) : Error :=
  let name (typeMap : PackTypeMap) : Str := ((packTypeMapData typeMap).type.map PackType.toStr).getD []
  ⟨.formatError, "field ".toList ++ fmtUInt id ++ " is type '".toList ++ name actual ++
    "' but expected '".toList ++ name expected ++ "'".toList⟩

def passTag (this : PackRead) : PackRead :=
  { this with tagStackTop := { this.tagStackTop with idLast := this.tagNextId }, tagNextId := 0 }

def takeTag (typeMap : PackTypeMap) (peek : Bool) (this : PackRead) : Except Error PackRead :=
  if peek then .ok this
  else if this.tagNextTypeMap ≠ typeMap then
    .error (typeError this.tagNextId this.tagNextTypeMap typeMap)
  else .ok (passTag this)

/-- Get the next tag if it has not been read yet. -/
def needTag (this : PackRead) : Except Error PackRead :=
  if this.tagNextId = 0 then do .ok (← pckReadTagNext this).2 else .ok this

/-- Search for the id. Each round but the first reads a byte, so that the fuel of `pckReadTag` is
enough, see `searchTag_fuel`. -/
def searchTag (id : Nat) (typeMap : PackTypeMap) (peek : Bool) : Nat → PackRead → Except Error PackRead
  | 0, _ => .error eofError
  | fuel + 1, this => do
    let this ← needTag this
    if id < this.tagNextId then .ok this
    else if id = this.tagNextId then takeTag typeMap peek this
    else do searchTag id typeMap peek fuel (passTag (← skipData this))

def pckReadTag (this : PackRead) (id : Nat) (typeMap : PackTypeMap) (peek : Bool) :
    Except Error (Nat × Nat × PackRead) :=
  let id' := if id = 0 then (this.tagStackTop.idLast + 1) % 2 ^ 32 else id
  if id ≠ 0 ∧ id ≤ this.tagStackTop.idLast then
    .error ⟨.formatError, "field ".toList ++ fmtUInt id ++ " was already read".toList⟩
  else do
    let this ← searchTag id' typeMap peek (this.rest.length + 2) this
    .ok (this.tagNextValue, id', this)

def pckReadNext (this : PackRead) : Except Error (Bool × PackRead) := pckReadTagNext this

def pckReadType (this : PackRead) : Option PackType := (packTypeMapData this.tagNextTypeMap).type

/-- A null field is passed, so that it is not checked again. -/
def pckReadNullInternal (this : PackRead) (id : Nat) : Except Error (Bool × Nat × PackRead) := do
  let (_, id, this) ← pckReadTag this id .unknown true
  if id < this.tagNextId then
    .ok (true, id, { this with tagStackTop := { this.tagStackTop with idLast := id } })
  else .ok (false, id, this)

def pckReadNull (this : PackRead) (id : Nat) : Except Error (Bool × PackRead) := do
  let (null, _, this) ← pckReadNullInternal this id
  .ok (null, this)

section Container

/-- A new entry of the stack, so that ids are tracked apart. -/
def pushTag (typeMap : PackTypeMap) (this : PackRead) : PackRead :=
  { this with tagStackTop := { typeMap }, tagStack := this.tagStackTop :: this.tagStack }

def readBegin (typeMap : PackTypeMap) (this : PackRead) (id : Nat) : Except Error PackRead := do
  let (_, _, this) ← pckReadTag this id typeMap false
  .ok (pushTag typeMap this)

def readEnd (typeMap : PackTypeMap) (error : String) (this : PackRead) : Except Error PackRead :=
  match this.tagStack with
  | [] => .error ⟨.formatError, error.toList⟩
  | below :: rest =>
    if this.tagStackTop.typeMap ≠ typeMap then .error ⟨.formatError, error.toList⟩
    else do
      let (_, _, this) ← pckReadTag this (uintMax - 1) .unknown true
      .ok { this with tagStackTop := below, tagStack := rest, tagNextId := 0 }

def pckReadArrayBegin : PackRead → Nat → Except Error PackRead := readBegin .array

def pckReadArrayEnd : PackRead → Except Error PackRead := readEnd .array "not in array"

def pckReadObjBegin : PackRead → Nat → Except Error PackRead := readBegin .obj

def pckReadObjEnd : PackRead → Except Error PackRead := readEnd .obj "not in object"

/-- One search for each level: the tag that ended the first is still there for the others, and the
top of the stack stays where it was. -/
def readEnds : List PackTagStack → PackRead → Except Error PackRead
  | [], this => .ok this
  | _ :: levels, this => do
    let (_, _, this) ← pckReadTag this (uintMax - 1) .unknown true
    readEnds levels this

def pckReadEnd (this : PackRead) : Except Error PackRead :=
  readEnds (this.tagStackTop :: this.tagStack) this

end Container

section Field

def readField {α : Type} (this : PackRead) (id : Nat) (defaultValue : α)
    (read : PackRead → Nat → Except Error (α × PackRead)) : Except Error (α × PackRead) := do
  let (null, id, this) ← pckReadNullInternal this id
  if null then .ok (defaultValue, this) else read this id

def scalarField {α : Type} (scalar : Scalar α) (this : PackRead) (id : Nat) :
    Except Error (α × PackRead) := do
  let (value, _, this) ← pckReadTag this id scalar.typeMap false
  .ok (scalar.ofNat value, this)

def readScalar {α : Type} (scalar : Scalar α) (this : PackRead) (id : Nat) (defaultValue : α) :
    Except Error (α × PackRead) :=
  readField this id defaultValue (scalarField scalar)

def pckReadBool := readScalar Scalar.bool

def pckReadI32 := readScalar Scalar.i32

def pckReadI64 := readScalar Scalar.i64

def pckReadMode := readScalar Scalar.mode

def pckReadPtr (this : PackRead) (id : Nat) : Except Error (BitVec 64 × PackRead) :=
  readScalar Scalar.ptr this id 0

def pckReadStrId := readScalar Scalar.strId

def pckReadTime := readScalar Scalar.time

def pckReadU32 := readScalar Scalar.u32

def pckReadU64 := readScalar Scalar.u64

def bytesField (typeMap : PackTypeMap) (this : PackRead) (id : Nat) :
    Except Error (Option Bytes × PackRead) := do
  let (value, _, this) ← pckReadTag this id typeMap false
  if value ≠ 0 then do
    let (bytes, this) ← readData this
    .ok (some bytes, this)
  else .ok (some [], this)

def readBytes (typeMap : PackTypeMap) (this : PackRead) (id : Nat) (defaultValue : Option Bytes) :
    Except Error (Option Bytes × PackRead) :=
  readField this id defaultValue (bytesField typeMap)

def pckReadBin (this : PackRead) (id : Nat) : Except Error (Option Bytes × PackRead) :=
  readBytes .bin this id none

def pckReadStr : PackRead → Nat → Option Bytes → Except Error (Option Bytes × PackRead) :=
  readBytes .str

def packField (this : PackRead) (id : Nat) : Except Error (Option Bytes × PackRead) := do
  let (_, _, this) ← pckReadTag this id .pack false
  let (bytes, this) ← readData this
  .ok (some bytes, this)

def pckReadPackBuf (this : PackRead) (id : Nat) : Except Error (Option Bytes × PackRead) :=
  readField this id none packField

def pckReadPack (this : PackRead) (id : Nat) : Except Error (Option PackRead × PackRead) := do
  let (buffer, this) ← pckReadPackBuf this id
  .ok (buffer.map pckReadNewBuf, this)

/-- Strings until the first null. Each string takes a byte at least, so the fuel is enough. -/
def readStrs : Nat → PackRead → Except Error (List (Option Bytes) × PackRead)
  | 0, _ => .error eofError
  | fuel + 1, this => do
    let (null, this) ← pckReadNull this 0
    if null then .ok ([], this)
    else
      let (value, this) ← pckReadStr this 0 none
      let (rest, this) ← readStrs fuel this
      .ok (value :: rest, this)

def strLstField (this : PackRead) (id : Nat) :
    Except Error (Option (List (Option Bytes)) × PackRead) := do
  let this ← pckReadArrayBegin this id
  let (values, this) ← readStrs (this.rest.length + 1) this
  let this ← pckReadArrayEnd this
  .ok (some values, this)

def pckReadStrLst (this : PackRead) (id : Nat) :
    Except Error (Option (List (Option Bytes)) × PackRead) :=
  readField this id none strLstField

end Field

section Fuel
variable {this after : PackRead}

theorem nextByte_shorter {byte : UInt8} (read : nextByte this = .ok (byte, after)) :
    after.rest.length < this.rest.length := by
  obtain ⟨-, -, read⟩ := Effects.except_bind_ok read
  split at read
  · cases read
  · rename_i isRest
    cases read
    rw [isRest]
    exact Nat.lt_succ_self _

theorem pckReadU64Internal_shorter {value : Nat} (read : pckReadU64Internal this = .ok (value, after)) :
    after.rest.length < this.rest.length :=
  Base128.decode_shorter (fun this : PackRead => this.rest.length)
    (fun _ _ _ first => nextByte_shorter first) read

theorem readChunks_shorter {fuel : Nat} : ∀ {size : Nat} {this after : PackRead} {bytes : Bytes},
    readChunks fuel size this = .ok (bytes, after) → after.rest.length ≤ this.rest.length := by
  induction fuel with
  | zero =>
    intro size this after bytes read
    cases read
    exact le_rfl
  | succ fuel ih =>
    intro size this after bytes read
    rw [readChunks] at read
    split at read
    · cases read
      exact le_rfl
    · obtain ⟨sizeRead, -, read⟩ := Effects.except_bind_ok read
      obtain ⟨⟨others, last⟩, chunks, read⟩ := Effects.except_bind_ok read
      cases read
      have rest := ih chunks
      dsimp only at rest
      rw [List.length_drop] at rest
      omega

theorem skipData_shorter (read : skipData this = .ok after) :
    after.rest.length ≤ this.rest.length := by
  unfold skipData at read
  split at read
  · obtain ⟨⟨bytes, last⟩, data, read⟩ := Effects.except_bind_ok read
    cases read
    obtain ⟨⟨size, between⟩, number, chunks⟩ := Effects.except_bind_ok data
    exact Nat.le_trans (readChunks_shorter chunks) (Nat.le_of_lt (pckReadU64Internal_shorter number))
  · cases read
    exact le_rfl

theorem readTagId_shorter {low shift tagId : Nat} {more : Bool}
    (read : readTagId this low more shift = .ok (tagId, after)) :
    after.rest.length ≤ this.rest.length := by
  unfold readTagId at read
  split at read
  · obtain ⟨⟨high, last⟩, number, read⟩ := Effects.except_bind_ok read
    cases read
    exact Nat.le_of_lt (pckReadU64Internal_shorter number)
  · cases read
    exact le_rfl

theorem readTypeMap_shorter {tag : Nat} {typeMap : PackTypeMap}
    (read : readTypeMap this tag = .ok (typeMap, after)) :
    after.rest.length ≤ this.rest.length := by
  unfold readTypeMap at read
  split at read
  · obtain ⟨⟨high, last⟩, number, read⟩ := Effects.except_bind_ok read
    obtain ⟨code, -, read⟩ := Effects.except_bind_ok read
    cases read
    exact Nat.le_of_lt (pckReadU64Internal_shorter number)
  · obtain ⟨code, -, read⟩ := Effects.except_bind_ok read
    cases read
    exact le_rfl

theorem readTagValue_shorter {typeMap : PackTypeMap} {tag tagId value : Nat}
    (read : readTagValue this typeMap tag = .ok (tagId, value, after)) :
    after.rest.length ≤ this.rest.length := by
  unfold readTagValue at read
  split at read
  · split at read
    · obtain ⟨⟨own, between⟩, isId, read⟩ := Effects.except_bind_ok read
      obtain ⟨⟨number, last⟩, isValue, read⟩ := Effects.except_bind_ok read
      cases read
      exact Nat.le_trans (Nat.le_of_lt (pckReadU64Internal_shorter isValue)) (readTagId_shorter isId)
    · obtain ⟨⟨own, last⟩, isId, read⟩ := Effects.except_bind_ok read
      cases read
      exact readTagId_shorter isId
  · split at read
    · obtain ⟨⟨own, last⟩, isId, read⟩ := Effects.except_bind_ok read
      cases read
      exact readTagId_shorter isId
    · obtain ⟨⟨own, last⟩, isId, read⟩ := Effects.except_bind_ok read
      cases read
      exact readTagId_shorter isId

theorem pckReadTagNext_shorter {found : Bool} (read : pckReadTagNext this = .ok (found, after)) :
    after.rest.length < this.rest.length := by
  unfold pckReadTagNext at read
  obtain ⟨⟨byte, first⟩, isByte, read⟩ := Effects.except_bind_ok read
  have less := nextByte_shorter isByte
  dsimp only at read
  split at read
  · cases read
    exact less
  · obtain ⟨⟨typeMap, second⟩, isType, read⟩ := Effects.except_bind_ok read
    obtain ⟨⟨tagId, value, third⟩, isValue, read⟩ := Effects.except_bind_ok read
    cases read
    have type := readTypeMap_shorter isType
    have rest := readTagValue_shorter isValue
    dsimp only at rest ⊢
    omega

/-- How many rounds a search can take: one for each byte, and one for a tag that is there. -/
def rounds (this : PackRead) : Nat := this.rest.length + if this.tagNextId = 0 then 1 else 2

theorem searchTag_rounds {id : Nat} {typeMap : PackTypeMap} {peek : Bool} {fuel : Nat} :
    ∀ {fuel' : Nat} {this : PackRead}, rounds this ≤ fuel → rounds this ≤ fuel' →
    searchTag id typeMap peek fuel this = searchTag id typeMap peek fuel' this := by
  induction fuel with
  | zero =>
    intro fuel' this enough _
    unfold rounds at enough
    split at enough <;> omega
  | succ fuel ih =>
    intro fuel' this enough enough'
    cases fuel' with
    | zero =>
      unfold rounds at enough'
      split at enough' <;> omega
    | succ fuel' =>
      rw [searchTag, searchTag]
      cases needed : needTag this with
      | error e => rfl
      | ok between =>
        dsimp only [bind, Except.bind]
        split
        · rfl
        · split
          · rfl
          · cases skipped : skipData between with
            | error e => rfl
            | ok after =>
              have data := skipData_shorter skipped
              have less : rounds (passTag after) + 1 ≤ rounds this := by
                have left : rounds (passTag after) = after.rest.length + 1 := rfl
                unfold needTag at needed
                rw [left, rounds]
                by_cases none : this.tagNextId = 0
                · rw [if_pos none] at needed ⊢
                  obtain ⟨⟨found, last⟩, tag, isLast⟩ := Effects.except_bind_ok needed
                  cases isLast
                  have shorter := pckReadTagNext_shorter tag
                  dsimp only at data
                  omega
                · rw [if_neg none] at needed ⊢
                  cases needed
                  omega
              exact ih (by omega) (by omega)

/-- On any bytes a search with the fuel of `pckReadTag` does not run out. -/
theorem searchTag_fuel {id : Nat} {typeMap : PackTypeMap} {peek : Bool} {fuel : Nat}
    (enough : this.rest.length + 2 ≤ fuel) :
    searchTag id typeMap peek fuel this = searchTag id typeMap peek (this.rest.length + 2) this := by
  have bound : rounds this ≤ this.rest.length + 2 := by
    unfold rounds
    split <;> omega
  exact searchTag_rounds (by omega) bound

end Fuel

end Pack
