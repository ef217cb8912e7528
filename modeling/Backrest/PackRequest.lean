import Backrest.PackField

/-!
# Asking a pack for fields

A reader asks for fields by id, each with a default for a null field, and reads
containers and inner packs with requests of their own. The answer for a list of
fields is what the requests mean; the reader gives the same answer on the bytes
of the fields, and the end of the reader is the end of the pack.
-/

namespace Pack

open Text StringId Base128

section Request

inductive ScalarType where
  | bool
  | i32
  | i64
  | mode
  | ptr
  | strId
  | time
  | u32
  | u64
  deriving DecidableEq

def ScalarType.Carrier : ScalarType → Type
  | bool => Bool
  | i32 => BitVec 32
  | i64 => BitVec 64
  | mode => BitVec 32
  | ptr => BitVec 64
  | strId => BitVec 64
  | time => BitVec 64
  | u32 => BitVec 32
  | u64 => BitVec 64

instance (type : ScalarType) : DecidableEq type.Carrier :=
  match type with
  | .bool => inferInstanceAs (DecidableEq Bool)
  | .i32 => inferInstanceAs (DecidableEq (BitVec 32))
  | .i64 => inferInstanceAs (DecidableEq (BitVec 64))
  | .mode => inferInstanceAs (DecidableEq (BitVec 32))
  | .ptr => inferInstanceAs (DecidableEq (BitVec 64))
  | .strId => inferInstanceAs (DecidableEq (BitVec 64))
  | .time => inferInstanceAs (DecidableEq (BitVec 64))
  | .u32 => inferInstanceAs (DecidableEq (BitVec 32))
  | .u64 => inferInstanceAs (DecidableEq (BitVec 64))

def ScalarType.scalar : (type : ScalarType) → Scalar type.Carrier
  | bool => Scalar.bool
  | i32 => Scalar.i32
  | i64 => Scalar.i64
  | mode => Scalar.mode
  | ptr => Scalar.ptr
  | strId => Scalar.strId
  | time => Scalar.time
  | u32 => Scalar.u32
  | u64 => Scalar.u64

/-- A pointer has no default but NULL. -/
def ScalarType.default : (type : ScalarType) → type.Carrier → type.Carrier
  | ptr, _ => (0 : BitVec 64)
  | _, defaultValue => defaultValue

def pckReadScalar : (type : ScalarType) → PackRead → Nat → type.Carrier →
    Except Error (type.Carrier × PackRead)
  | .bool => pckReadBool
  | .i32 => pckReadI32
  | .i64 => pckReadI64
  | .mode => pckReadMode
  | .ptr => fun this id _ => pckReadPtr this id
  | .strId => pckReadStrId
  | .time => pckReadTime
  | .u32 => pckReadU32
  | .u64 => pckReadU64

theorem pckReadScalar_eq (type : ScalarType) (this : PackRead) (id : Nat)
    (defaultValue : type.Carrier) :
    pckReadScalar type this id defaultValue
      = readScalar type.scalar this id (type.default defaultValue) := by
  cases type <;> rfl

inductive Request where
  | null (id : Nat)
  | scalar (type : ScalarType) (id : Nat) (defaultValue : type.Carrier)
  | str (id : Nat) (defaultValue : Option Bytes)
  | bin (id : Nat)
  | strLst (id : Nat)
  | packBuf (id : Nat)
  | pack (id : Nat) (requests : List Request)
  | array (id : Nat) (requests : List Request)
  | obj (id : Nat) (requests : List Request)

inductive Answer where
  | null (isNull : Bool)
  | scalar (type : ScalarType) (value : type.Carrier)
  | bytes (value : Option Bytes)
  | strLst (value : Option (List (Option Bytes)))
  | packNull
  | pack (answers : List Answer)
  | container (answers : List Answer)

def Request.id : Request → Nat
  | null id => id
  | scalar _ id _ => id
  | str id _ => id
  | bin id => id
  | strLst id => id
  | packBuf id => id
  | pack id _ => id
  | array id _ => id
  | obj id _ => id

mutual

/-- One read of the reader. -/
def Request.read : Request → PackRead → Except Error (Answer × PackRead)
  | .null id, this => do
    let (isNull, this) ← pckReadNull this id
    .ok (.null isNull, this)
  | .scalar type id defaultValue, this => do
    let (value, this) ← pckReadScalar type this id defaultValue
    .ok (.scalar type value, this)
  | .str id defaultValue, this => do
    let (value, this) ← pckReadStr this id defaultValue
    .ok (.bytes value, this)
  | .bin id, this => do
    let (value, this) ← pckReadBin this id
    .ok (.bytes value, this)
  | .strLst id, this => do
    let (value, this) ← pckReadStrLst this id
    .ok (.strLst value, this)
  | .packBuf id, this => do
    let (value, this) ← pckReadPackBuf this id
    .ok (.bytes value, this)
  | .pack id requests, this => do
    let (inner, this) ← pckReadPack this id
    match inner with
    | none => .ok (.packNull, this)
    | some inner => do
      let (answers, inner) ← readRequests requests inner
      let _ ← pckReadEnd inner
      .ok (.pack answers, this)
  | .array id requests, this => do
    let (answers, this) ← readRequests requests (← pckReadArrayBegin this id)
    .ok (.container answers, ← pckReadArrayEnd this)
  | .obj id requests, this => do
    let (answers, this) ← readRequests requests (← pckReadObjBegin this id)
    .ok (.container answers, ← pckReadObjEnd this)

def readRequests : List Request → PackRead → Except Error (List Answer × PackRead)
  | [], this => .ok ([], this)
  | request :: rest, this => do
    let (answer, this) ← request.read this
    let (answers, this) ← readRequests rest this
    .ok (answer :: answers, this)

end

/-- What a null field is answered with. A container must be there. -/
def Request.default : Request → Option Answer
  | null _ => some (.null true)
  | scalar type _ defaultValue => some (.scalar type (type.default defaultValue))
  | str _ defaultValue => some (.bytes defaultValue)
  | bin _ => some (.bytes none)
  | strLst _ => some (.strLst none)
  | packBuf _ => some (.bytes none)
  | pack _ _ => some .packNull
  | array _ _ => none
  | obj _ _ => none

def Request.isNull : Request → Bool
  | null _ => true
  | _ => false

/-- The strings up to the first id that is missing; what is left must be flat. -/
def strsOf : Nat → List Field → Option (List (Option Bytes))
  | _, [] => some []
  | last, field :: rest =>
    if field.id = last + 1 then
      match field with
      | .data id .str bytes => (strsOf id rest).map (some bytes :: ·)
      | _ => none
    else (skip (uintMax - 1) last (field :: rest)).map fun _ => []

mutual

def Request.answer : Request → Field → Option Answer
  | .null _, _ => some (.null false)
  | .scalar type _ _, field =>
    match field with
    | .scalar _ typeMap value =>
      if typeMap = type.scalar.typeMap then some (.scalar type (type.scalar.ofNat value)) else none
    | _ => none
  | .str _ _, field =>
    match field with
    | .data _ .str bytes => some (.bytes (some bytes))
    | _ => none
  | .bin _, field =>
    match field with
    | .data _ .bin bytes => some (.bytes (some bytes))
    | _ => none
  | .strLst _, field =>
    match field with
    | .container _ .array fields => (strsOf 0 fields).map fun values => .strLst (some values)
    | _ => none
  | .packBuf _, field =>
    match field with
    | .pack _ fields => some (.bytes (some (fieldsBytes 0 fields ++ [0])))
    | _ => none
  | .pack _ requests, field =>
    match field with
    | .pack _ fields => (answers requests 0 fields).map .pack
    | _ => none
  | .array _ requests, field =>
    match field with
    | .container _ .array fields => (answers requests 0 fields).map .container
    | _ => none
  | .obj _ requests, field =>
    match field with
    | .container _ .obj fields => (answers requests 0 fields).map .container
    | _ => none

/-- The answers for the fields after the id that was last: the ids of the requests increase, and
what a request or the end passes is flat. -/
def answers : List Request → Nat → List Field → Option (List Answer)
  | [], last, fields => (skip (uintMax - 1) last fields).map fun _ => []
  | request :: rest, last, fields =>
    let id := idAt request.id last
    if last < id ∧ id < uintMax - 1 then
      (skip id last fields).bind fun (last', left) =>
        match left.head?.filter (·.id = id) with
        | none => request.default.bind fun answer => (answers rest id left).map (answer :: ·)
        | some field => (request.answer field).bind fun answer =>
          if request.isNull then (answers rest last' left).map (answer :: ·)
          else (answers rest id left.tail).map (answer :: ·)
    else none

end

end Request

section Read
variable {tail : Bytes} {this : PackRead} {asked id last last' : Nat} {field : Field}
  {fields left : List Field}

structure Asks (tail : Bytes) (this : PackRead) (asked id last : Nat) (fields : List Field)
    (last' : Nat) (left : List Field) : Prop where
  isId : id = idAt asked last
  ready : this.Ready
  valid : ValidFrom last fields
  stands : At tail this last fields
  above : last < id
  small : id < uintMax - 1
  skipped : skip id last fields = some (last', left)

theorem Asks.tag (asks : Asks tail this asked id last fields last' left) (typeMap : PackTypeMap)
    (peek : Bool) :
    ∃ after, Same this after ∧ Stops tail after last' left ∧
      pckReadTag this asked typeMap peek = (finish id typeMap peek after).map
        fun found => (found.tagNextValue, id, found) := by
  obtain ⟨rfl, ready, valid, stands, above, small, skipped⟩ := asks
  exact pckReadTag_spec typeMap peek ready valid stands above (by omega) skipped

theorem finish_peek (typeMap : PackTypeMap) (after : PackRead) :
    finish id typeMap true after = .ok after := by
  unfold finish takeTag
  split <;> rfl

theorem Asks.null_found (asks : Asks tail this asked id last fields last' (field :: left))
    (same : field.id = id) :
    ∃ after, pckReadNullInternal this asked = .ok (false, id, after) ∧ Same this after ∧
      Before tail after last' field left := by
  obtain ⟨after, keeps, stops, read⟩ := asks.tag .unknown true
  cases stops with
  | before stands =>
    have notUnder : ¬id < after.tagNextId := by
      rw [stands.tagNextId]
      omega
    refine ⟨after, ?_, keeps, stands⟩
    unfold pckReadNullInternal
    rw [read, finish_peek]
    dsimp only [Except.map, bind, Except.bind]
    rw [if_neg notUnder]

theorem Asks.null_missing (asks : Asks tail this asked id last fields last' left)
    (missing : ∀ field ∈ left.head?, field.id ≠ id) :
    ∃ after, pckReadNullInternal this asked = .ok (true, id, after) ∧ Same this after ∧
      At tail after id left ∧ ValidFrom id left := by
  obtain ⟨after, keeps, stops, read⟩ := asks.tag .unknown true
  have valid := skip_valid asks.valid asks.skipped
  have reached : ∀ field ∈ left.head?, id ≤ field.id := fun field mem => skip_head asks.skipped mem
  have small := asks.small
  refine ⟨{ after with tagStackTop := { after.tagStackTop with idLast := id } }, ?_,
    ⟨keeps.read, keeps.tagStack, keeps.typeMap, keeps.nullTotal⟩, ?_⟩
  · have under : id < after.tagNextId := by
      cases stops with
      | before stands =>
        rename_i field rest
        have differs := missing field rfl
        have low := reached field rfl
        rw [stands.tagNextId]
        omega
      | ended stands =>
        rw [stands.tagNextId]
        omega
    unfold pckReadNullInternal
    rw [read, finish_peek]
    dsimp only [Except.map, bind, Except.bind]
    rw [if_pos under]
  · cases stops with
    | before stands =>
      rename_i field rest
      have differs := missing field rfl
      have low := reached field rfl
      exact ⟨At.before ⟨stands.tagNextId, stands.tagNextTypeMap, stands.tagNextValue, rfl,
        stands.rest⟩, valid.from (by omega)⟩
    | ended stands =>
      refine ⟨At.ended ⟨stands.tagNextId, rfl, stands.rest⟩, ?_⟩
      rw [ValidFrom]
      exact trivial

theorem take_spec (ready : this.Ready) (valid : ValidFrom last (field :: fields))
    (stands : Before tail this last field fields) :
    ∃ after, pckReadTag this field.id field.typeMap false = .ok (field.value, field.id, after) ∧
      Same this after ∧ Inside tail after field fields := by
  have bounds := valid
  rw [ValidFrom] at bounds
  have own : idAt field.id last = field.id := by
    rw [idAt, if_neg (by omega)]
  have stays : skip field.id last (field :: fields) = some (last, field :: fields) := by
    rw [skip, if_neg (Nat.lt_irrefl _)]
  have asks : Asks tail this field.id field.id last (field :: fields) last (field :: fields) :=
    ⟨own.symm, ready, valid, At.before stands, bounds.1.1, by omega, stays⟩
  obtain ⟨after, keeps, stops, read⟩ := asks.tag field.typeMap false
  cases stops with
  | before stops =>
    have found : finish field.id field.typeMap false after = .ok (passTag after) := by
      unfold finish takeTag
      rw [stops.tagNextId, if_neg (Nat.lt_irrefl _), if_neg Bool.false_ne_true, stops.tagNextTypeMap,
        if_neg (not_not.mpr rfl)]
    refine ⟨passTag after, ?_, ⟨keeps.read, keeps.tagStack, keeps.typeMap, keeps.nullTotal⟩,
      ⟨rfl, stops.tagNextId, stops.tagNextValue, stops.rest⟩⟩
    rw [read, found]
    dsimp only [Except.map, passTag]
    rw [stops.tagNextValue]

/-- What is left can be passed to the end. -/
def Done (tail : Bytes) (this after : PackRead) : Prop :=
  Same this after ∧ ∃ last left, At tail after last left ∧ ValidFrom last left ∧
    last < uintMax - 1 ∧ (skip (uintMax - 1) last left).isSome = true

theorem skip_end {last' : Nat} {left : List Field} (valid : ValidFrom last fields)
    (skipped : skip (uintMax - 1) last fields = some (last', left)) : left = [] := by
  have others := skip_valid valid skipped
  cases left with
  | nil => rfl
  | cons field rest =>
    have reached := skip_head skipped (show field ∈ (field :: rest).head? from rfl)
    rw [ValidFrom] at others
    omega

theorem Done.tag {after : PackRead} (done : Done tail this after) (ready : this.Ready) :
    ∃ ended last, pckReadTag after (uintMax - 1) .unknown true
        = .ok (ended.tagNextValue, uintMax - 1, ended) ∧ Same this ended ∧ Ended tail ended last := by
  obtain ⟨keeps, last, left, stands, valid, small, skips⟩ := done
  obtain ⟨⟨last', left'⟩, skipped⟩ := Option.isSome_iff_exists.mp skips
  have empty := skip_end valid skipped
  subst empty
  have own : idAt (uintMax - 1) last = uintMax - 1 := by
    rw [idAt, if_neg (by decide)]
  obtain ⟨ended, same, stops, read⟩ := pckReadTag_spec .unknown true (keeps.ready ready) valid stands
    (by rw [own]; exact small) (by rw [own]; decide) (by rw [own]; exact skipped)
  cases stops with
  | ended stands =>
    refine ⟨ended, last', ?_, keeps.trans same, stands⟩
    rw [read, own, finish_peek]
    rfl

theorem Done.readEnd {after : PackRead} {below : PackTagStack} {rest : List PackTagStack}
    {typeMap : PackTypeMap} (error : String) (done : Done tail this after) (ready : this.Ready)
    (isStack : this.tagStack = below :: rest) (isType : this.tagStackTop.typeMap = typeMap) :
    ∃ back, Pack.readEnd typeMap error after = .ok back ∧ back.read = this.read ∧
      back.tagStackTop = below ∧ back.tagStack = rest ∧ back.tagNextId = 0 ∧ back.rest = tail := by
  obtain ⟨ended, last, read, same, stands⟩ := done.tag ready
  have keeps := done.1
  refine ⟨{ ended with tagStackTop := below, tagStack := rest, tagNextId := 0 }, ?_, same.read, rfl, rfl,
    rfl, stands.rest⟩
  unfold Pack.readEnd
  rw [keeps.tagStack, isStack]
  dsimp only
  rw [keeps.typeMap, isType, if_neg (not_not.mpr rfl), read]
  rfl

/-- A pack without open containers ends where its bytes do. -/
theorem Done.pckReadEnd {after : PackRead} (done : Done tail this after) (ready : this.Ready)
    (isStack : this.tagStack = []) :
    ∃ ended, Pack.pckReadEnd after = .ok ended ∧ ended.rest = tail := by
  obtain ⟨ended, last, read, same, stands⟩ := done.tag ready
  refine ⟨ended, ?_, stands.rest⟩
  unfold Pack.pckReadEnd
  rw [done.1.tagStack, isStack, readEnds, read]
  rfl

end Read

end Pack
