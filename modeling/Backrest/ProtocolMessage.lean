import Backrest.PackRoundTrip

/-!
# The messages of the protocol

Client and server put messages into a pipe, each a pack of its own: a command
with its parameters, data, the end of the data, or an error. Each get takes one
message from the pipe and checks its type. Whatever follows in the pipe, a get
finds the message as it was put and leaves the pipe at the next one.
-/

namespace Protocol

open Text StringId Pack

section Message

def protocolMessageTypeData : BitVec 32 := 0
def protocolMessageTypeDataEnd : BitVec 32 := 1
def protocolMessageTypeCommand : BitVec 32 := 2
def protocolMessageTypeError : BitVec 32 := 3

inductive Message where
  | data (pack : Option (List Call))
  | dataEnd
  | command (id : BitVec 64) (param : Option (List Call))
  | error (code : BitVec 32) (message stack : Bytes)

/-- The writes of `protocolClientDataPut` and `protocolServerDataPut`, `protocolServerDataEndPut`,
`protocolCommandPut` and `protocolServerError`. -/
def Message.calls : Message → List Call
  | data pack =>
    [.scalar .u32 protocolMessageTypeData 0 true (0#32), (pack.map (Call.pack · 0)).getD (.packNull 0)]
  | dataEnd => [.scalar .u32 protocolMessageTypeDataEnd 0 true (0#32)]
  | command id param =>
    .scalar .u32 protocolMessageTypeCommand 0 true (0#32) :: .scalar .strId id 0 false (0#64) ::
      (param.map (Call.pack · 0)).toList
  | error code message stack =>
    [.scalar .u32 protocolMessageTypeError 0 false (0#32), .scalar .i32 code 0 false (0#32),
      .str (some message) 0 false none, .str (some stack) 0 false none]

/-- A message as it stands in the pipe. -/
def Message.packed (write : Nat) (message : Message) : Except Text.Error Bytes :=
  Pack.packed (some write) message.calls

def packReader (calls : List Call) : PackRead :=
  pckReadNewBuf (fieldsBytes 0 (fieldsOf 0 0 calls) ++ [0])

end Message

section Get

structure ProtocolClient where
  errorPrefix : Bytes
  debug : Bool

/-- An error with the code of its type. -/
structure Thrown where
  code : BitVec 32
  message : Bytes
  deriving DecidableEq

def assertErrorCode : BitVec 32 := 25

def unknownErrorCode : BitVec 32 := 125

/-- The code of a type that is not in the list becomes that of `UnknownError`. -/
def errorTypeFromCode (code : BitVec 32) : BitVec 32 :=
  if 25 ≤ code.toNat ∧ code.toNat ≤ 104 ∧ code.toNat ≠ 65 ∧ code.toNat ≠ 71
      ∨ 122 ≤ code.toNat ∧ code.toNat ≤ 125 then code
  else unknownErrorCode

/-- `ERROR_MESSAGE_BUFFER_SIZE` -/
def errorMessageBufferSize : Nat := 8192

def errorText (this : ProtocolClient) (code : BitVec 32) (message stack : Bytes) : Thrown :=
  let type := errorTypeFromCode code
  let text := this.errorPrefix ++ (zBytes ": " ++ message)
  let text := if type = assertErrorCode ∨ this.debug = true then text ++ 10 :: stack else text
  ⟨type, text.take (errorMessageBufferSize - 1)⟩

def protocolClientError (this : ProtocolClient) (type : BitVec 32) (error : PackRead) :
    Except Text.Error (Option Thrown × PackRead) :=
  if type = protocolMessageTypeError then do
    let (code, error) ← pckReadI32 error 0 (0#32)
    let (message, error) ← pckReadStr error 0 none
    let (stack, error) ← pckReadStr error 0 none
    let error ← pckReadEnd error
    match message, stack with
    | some message, some stack => .ok (some (errorText this code message stack), error)
    | none, _ => .error (checkError "message != NULL")
    | some _, none => .error (checkError "stack != NULL")
  else .ok (none, error)

def getFields {α : Type} (type expected : BitVec 32) (condition : String)
    (fields : PackRead → Except Text.Error (α × PackRead)) (message : PackRead) :
    Except Text.Error (α × PackRead) :=
  if type ≠ expected then .error (checkError condition)
  else do
    let (result, message) ← fields message
    .ok (result, ← pckReadEnd message)

/-- A get of the client. The error of the server comes with the reader behind its message, any other
error leaves the reader inside a message. -/
def clientGet {α : Type} (this : ProtocolClient) (expected : BitVec 32) (condition : String)
    (fields : PackRead → Except Text.Error (α × PackRead)) (response : PackRead) :
    Except Text.Error (Except Thrown α × PackRead) := do
  let (type, response) ← pckReadU32 response 0 (0#32)
  let (thrown, response) ← protocolClientError this type response
  match thrown with
  | some error => .ok (.error error, response)
  | none =>
    let (result, response) ← getFields type expected condition fields response
    .ok (.ok result, response)

def protocolClientDataGet (this : ProtocolClient) :
    PackRead → Except Text.Error (Except Thrown (Option PackRead) × PackRead) :=
  clientGet this protocolMessageTypeData "type == protocolMessageTypeData" (pckReadPack · 0)

def protocolClientDataEndGet (this : ProtocolClient) :
    PackRead → Except Text.Error (Except Thrown Unit × PackRead) :=
  clientGet this protocolMessageTypeDataEnd "type == protocolMessageTypeDataEnd" fun response =>
    .ok ((), response)

def commandFields (command : PackRead) :
    Except Text.Error ((BitVec 64 × Option Bytes) × PackRead) := do
  let (id, command) ← pckReadStrId command 0 (0#64)
  let (param, command) ← pckReadPackBuf command 0
  .ok ((id, param), command)

def serverGet {α : Type} (expected : BitVec 32) (condition : String)
    (fields : PackRead → Except Text.Error (α × PackRead)) (message : PackRead) :
    Except Text.Error (α × PackRead) := do
  let (type, message) ← pckReadU32 message 0 (0#32)
  getFields type expected condition fields message

def protocolServerCommandGet : PackRead → Except Text.Error ((BitVec 64 × Option Bytes) × PackRead) :=
  serverGet protocolMessageTypeCommand "type == protocolMessageTypeCommand" commandFields

def protocolServerDataGet : PackRead → Except Text.Error (Option PackRead × PackRead) :=
  serverGet protocolMessageTypeData "type == protocolMessageTypeData" (pckReadPack · 0)

end Get

section Meaning

/-- What `protocolClientDataGet` makes of a message. -/
def Message.clientData (this : ProtocolClient) :
    Message → Except Text.Error (Except Thrown (Option PackRead))
  | data pack => .ok (.ok (pack.map packReader))
  | error code message stack => .ok (.error (errorText this code message stack))
  | _ => .error (checkError "type == protocolMessageTypeData")

def Message.clientDataEnd (this : ProtocolClient) : Message → Except Text.Error (Except Thrown Unit)
  | dataEnd => .ok (.ok ())
  | error code message stack => .ok (.error (errorText this code message stack))
  | _ => .error (checkError "type == protocolMessageTypeDataEnd")

def Message.serverCommand : Message → Except Text.Error (BitVec 64 × Option Bytes)
  | command id param => .ok (id, param.map fun calls => (packReader calls).rest)
  | _ => .error (checkError "type == protocolMessageTypeCommand")

def Message.serverData : Message → Except Text.Error (Option PackRead)
  | data pack => .ok (pack.map packReader)
  | _ => .error (checkError "type == protocolMessageTypeData")

end Meaning

section Chain
variable {this after : PackRead}

theorem readRequests_cons {request : Request} {requests : List Request} {answer : Answer}
    {answers : List Answer}
    (reads : readRequests (request :: requests) this = .ok (answer :: answers, after)) :
    ∃ between, request.read this = .ok (answer, between) ∧
      readRequests requests between = .ok (answers, after) := by
  rw [readRequests] at reads
  obtain ⟨⟨first, between⟩, read, reads⟩ := Effects.except_bind_ok reads
  obtain ⟨⟨others, last⟩, rest, reads⟩ := Effects.except_bind_ok reads
  cases reads
  exact ⟨between, read, rest⟩

theorem readRequests_nil (reads : readRequests [] this = .ok ([], after)) : after = this := by
  rw [readRequests] at reads
  cases reads
  rfl

variable {id : Nat} {value : Option Bytes}

theorem read_scalar {type : ScalarType} {defaultValue value : type.Carrier}
    (read : (Request.scalar type id defaultValue).read this = .ok (.scalar type value, after)) :
    pckReadScalar type this id defaultValue = .ok (value, after) := by
  rw [Request.read] at read
  obtain ⟨⟨found, last⟩, isValue, read⟩ := Effects.except_bind_ok read
  cases read
  exact isValue

theorem read_str {defaultValue : Option Bytes}
    (read : (Request.str id defaultValue).read this = .ok (.bytes value, after)) :
    pckReadStr this id defaultValue = .ok (value, after) := by
  rw [Request.read] at read
  obtain ⟨⟨found, last⟩, isValue, read⟩ := Effects.except_bind_ok read
  cases read
  exact isValue

theorem read_bin (read : (Request.bin id).read this = .ok (.bytes value, after)) :
    pckReadBin this id = .ok (value, after) := by
  rw [Request.read] at read
  obtain ⟨⟨found, last⟩, isValue, read⟩ := Effects.except_bind_ok read
  cases read
  exact isValue

theorem read_packBuf (read : (Request.packBuf id).read this = .ok (.bytes value, after)) :
    pckReadPackBuf this id = .ok (value, after) := by
  rw [Request.read] at read
  obtain ⟨⟨found, last⟩, isValue, read⟩ := Effects.except_bind_ok read
  cases read
  exact isValue

theorem reads_of_unpacked {read : Option Nat} {requests : List Request} {source tail : Bytes}
    {answers : List Answer} (unpacks : unpacked read requests source = .ok (answers, tail)) :
    ∃ last ended, readRequests requests { read, rest := source } = .ok (answers, last) ∧
      pckReadEnd last = .ok ended ∧ ended.rest = tail := by
  unfold unpacked at unpacks
  obtain ⟨⟨found, last⟩, reads, unpacks⟩ := Effects.except_bind_ok unpacks
  obtain ⟨ended, ends, unpacks⟩ := Effects.except_bind_ok unpacks
  cases unpacks
  exact ⟨last, ended, reads, ends, rfl⟩

end Chain

section Framing
variable {write read : Nat} {tail : Bytes}

/-- The requests that read a message whole. -/
def Message.requests : Message → List Request
  | data _ => [.scalar .u32 0 (0#32), .packBuf 0]
  | dataEnd => [.scalar .u32 0 (0#32)]
  | command _ _ => [.scalar .u32 0 (0#32), .scalar .strId 0 (0#64), .packBuf 0]
  | error _ _ _ => [.scalar .u32 0 (0#32), .scalar .i32 0 (0#32), .str 0 none, .str 0 none]

def Message.answers : Message → List Answer
  | data pack =>
    [.scalar .u32 protocolMessageTypeData, .bytes (pack.map fun calls => (packReader calls).rest)]
  | dataEnd => [.scalar .u32 protocolMessageTypeDataEnd]
  | command id param =>
    [.scalar .u32 protocolMessageTypeCommand, .scalar .strId id,
      .bytes (param.map fun calls => (packReader calls).rest)]
  | error code message stack =>
    [.scalar .u32 protocolMessageTypeError, .scalar .i32 code, .bytes (some message), .bytes (some stack)]

theorem field?_scalar (type : ScalarType) {value defaultValue : type.Carrier} (own id : Nat)
    (differs : value ≠ type.default defaultValue) :
    (Call.scalar type value own false defaultValue).field? id
      = some (.scalar id type.scalar.typeMap (type.scalar.toNat value)) := by
  rw [Call.field?, beq_eq_false_iff_ne.mpr differs]
  rfl

theorem fieldsOf_some {call : Call} {last nulls : Nat} {field : Field} (rest : List Call)
    (isField : call.field? (call.nextId last nulls) = some field) :
    fieldsOf last nulls (call :: rest) = field :: fieldsOf (call.nextId last nulls) 0 rest := by
  rw [fieldsOf, isField]

theorem answers_message (message : Message) :
    Pack.answers message.requests 0 (fieldsOf 0 0 message.calls) = some message.answers := by
  cases message with
  | data pack => cases pack <;> rfl
  | dataEnd => rfl
  | command id param =>
    by_cases zero : id = 0#64
    · subst zero
      cases param <;> rfl
    · have fields := @fieldsOf_some (.scalar .strId id 0 false (0#64)) 1 0 _
        (param.map (Call.pack · 0)).toList (field?_scalar .strId 0 2 zero)
      have same : Scalar.strId.ofNat (Scalar.strId.toNat id) = id := Scalar.strId.ofNat_toNat id
      calc Pack.answers (Message.command id param).requests 0
            (fieldsOf 0 0 (Message.command id param).calls)
          = Pack.answers (Message.command id param).requests 0
              (.scalar 1 .u32 2 :: .scalar 2 .strId (Scalar.strId.toNat id) ::
                fieldsOf 2 0 (param.map (Call.pack · 0)).toList) :=
            congrArg (fun fields => Pack.answers _ 0 (.scalar 1 .u32 2 :: fields)) fields
        _ = some [.scalar .u32 protocolMessageTypeCommand,
              .scalar .strId (Scalar.strId.ofNat (Scalar.strId.toNat id)),
              .bytes (param.map fun calls => (packReader calls).rest)] := by cases param <;> rfl
        _ = some (Message.command id param).answers := by rw [same]; rfl
  | error code message stack =>
    by_cases zero : code = 0#32
    · subst zero
      rfl
    · have fields := @fieldsOf_some (.scalar .i32 code 0 false (0#32)) 1 0 _
        [.str (some message) 0 false none, .str (some stack) 0 false none]
        (field?_scalar .i32 0 2 zero)
      have same : Scalar.i32.ofNat (Scalar.i32.toNat code) = code := Scalar.i32.ofNat_toNat code
      calc Pack.answers (Message.error code message stack).requests 0
            (fieldsOf 0 0 (Message.error code message stack).calls)
          = Pack.answers (Message.error code message stack).requests 0
              [.scalar 1 .u32 3, .scalar 2 .i32 (Scalar.i32.toNat code), .data 3 .str message,
                .data 4 .str stack] :=
            congrArg (fun fields => Pack.answers _ 0 (.scalar 1 .u32 3 :: fields)) fields
        _ = some [.scalar .u32 protocolMessageTypeError,
              .scalar .i32 (Scalar.i32.ofNat (Scalar.i32.toNat code)),
              .bytes (some message), .bytes (some stack)] := rfl
        _ = some (Message.error code message stack).answers := by rw [same]; rfl

/-- The reader stands at a message that is followed by the tail. -/
def Holds (message : Message) (tail : Bytes) (this : PackRead) : Prop :=
  ∃ last ended, readRequests message.requests this = .ok (message.answers, last) ∧
    pckReadEnd last = .ok ended ∧ ended.rest = tail

variable {message : Message} {α : Type} {expected : BitVec 32} {condition : String}
  {fields : PackRead → Except Text.Error (α × PackRead)} {first : PackRead}

theorem holds_packed (write : Nat) (ready : read ≠ 0) (valid : ValidCalls 0 0 message.calls)
    (tail : Bytes) :
    ∃ bytes, message.packed write = .ok bytes ∧ Holds message tail (pckReadNew read (bytes ++ tail)) :=
  ⟨_, packed_spec (some write) valid, reads_of_unpacked (unpacked_fields (some read)
    (fun same => ready (Option.some.inj same)) (fieldsOf_valid message.calls valid)
    (answers_message message) tail)⟩

def Message.type : Message → BitVec 32
  | data _ => protocolMessageTypeData
  | dataEnd => protocolMessageTypeDataEnd
  | command _ _ => protocolMessageTypeCommand
  | error _ _ _ => protocolMessageTypeError

variable {this : PackRead}

theorem Holds.type (holds : Holds message tail this) :
    ∃ first, pckReadU32 this 0 (0#32) = .ok (message.type, first) := by
  obtain ⟨last, ended, reads, -, -⟩ := holds
  cases message with
  | data pack =>
    obtain ⟨first, read, -⟩ := readRequests_cons reads
    exact ⟨first, read_scalar read⟩
  | dataEnd =>
    obtain ⟨first, read, -⟩ := readRequests_cons reads
    exact ⟨first, read_scalar read⟩
  | command id param =>
    obtain ⟨first, read, -⟩ := readRequests_cons reads
    exact ⟨first, read_scalar read⟩
  | error code message stack =>
    obtain ⟨first, read, -⟩ := readRequests_cons reads
    exact ⟨first, read_scalar read⟩

theorem Holds.data {pack : Option (List Call)} (holds : Holds (.data pack) tail this) :
    ∃ first last ended, pckReadU32 this 0 (0#32) = .ok (protocolMessageTypeData, first) ∧
      pckReadPack first 0 = .ok (pack.map packReader, last) ∧ pckReadEnd last = .ok ended ∧
      ended.rest = tail := by
  obtain ⟨last, ended, reads, ends, isRest⟩ := holds
  obtain ⟨first, type, reads⟩ := readRequests_cons reads
  obtain ⟨second, inner, reads⟩ := readRequests_cons reads
  cases readRequests_nil reads
  refine ⟨first, last, ended, read_scalar type, ?_, ends, isRest⟩
  unfold pckReadPack
  rw [read_packBuf inner]
  cases pack <;> rfl

theorem Holds.dataEnd (holds : Holds .dataEnd tail this) :
    ∃ first ended, pckReadU32 this 0 (0#32) = .ok (protocolMessageTypeDataEnd, first) ∧
      pckReadEnd first = .ok ended ∧ ended.rest = tail := by
  obtain ⟨last, ended, reads, ends, isRest⟩ := holds
  obtain ⟨first, type, reads⟩ := readRequests_cons reads
  cases readRequests_nil reads
  exact ⟨last, ended, read_scalar type, ends, isRest⟩

theorem Holds.command {id : BitVec 64} {param : Option (List Call)}
    (holds : Holds (.command id param) tail this) :
    ∃ first second last ended, pckReadU32 this 0 (0#32) = .ok (protocolMessageTypeCommand, first) ∧
      pckReadStrId first 0 (0#64) = .ok (id, second) ∧
      pckReadPackBuf second 0 = .ok (param.map fun calls => (packReader calls).rest, last) ∧
      pckReadEnd last = .ok ended ∧ ended.rest = tail := by
  obtain ⟨last, ended, reads, ends, isRest⟩ := holds
  obtain ⟨first, type, reads⟩ := readRequests_cons reads
  obtain ⟨second, isId, reads⟩ := readRequests_cons reads
  obtain ⟨third, inner, reads⟩ := readRequests_cons reads
  cases readRequests_nil reads
  exact ⟨first, second, last, ended, read_scalar type, read_scalar isId, read_packBuf inner, ends,
    isRest⟩

theorem Holds.error {code : BitVec 32} {message stack : Bytes}
    (holds : Holds (.error code message stack) tail this) (client : ProtocolClient)
    (expected : BitVec 32) (condition : String)
    (fields : PackRead → Except Text.Error (α × PackRead)) :
    ∃ ended, clientGet client expected condition fields this
        = .ok (.error (errorText client code message stack), ended) ∧ ended.rest = tail := by
  obtain ⟨last, ended, reads, ends, isRest⟩ := holds
  obtain ⟨first, type, reads⟩ := readRequests_cons reads
  obtain ⟨second, isCode, reads⟩ := readRequests_cons reads
  obtain ⟨third, isMessage, reads⟩ := readRequests_cons reads
  obtain ⟨fourth, isStack, reads⟩ := readRequests_cons reads
  cases readRequests_nil reads
  have isType : pckReadU32 this 0 (0#32) = .ok (protocolMessageTypeError, first) := read_scalar type
  have thrown : protocolClientError client protocolMessageTypeError first
      = .ok (some (errorText client code message stack), ended) := by
    have reads' : pckReadI32 first 0 (0#32) = .ok (code, second) := read_scalar isCode
    unfold protocolClientError
    rw [if_pos rfl, reads']
    dsimp only [bind, Except.bind]
    rw [read_str isMessage]
    dsimp only
    rw [read_str isStack]
    dsimp only
    rw [ends]
  refine ⟨ended, ?_, isRest⟩
  unfold clientGet
  rw [isType]
  dsimp only [bind, Except.bind]
  rw [thrown]

theorem clientGet_fields {client : ProtocolClient} {type : BitVec 32}
    (isType : pckReadU32 this 0 (0#32) = .ok (type, first))
    (noError : type ≠ protocolMessageTypeError) :
    clientGet client expected condition fields this
      = (getFields type expected condition fields first).map fun read => (.ok read.1, read.2) := by
  unfold clientGet
  rw [isType]
  dsimp only [bind, Except.bind]
  unfold protocolClientError
  rw [if_neg noError]
  dsimp only
  cases getFields type expected condition fields first <;> rfl

theorem getFields_other {type : BitVec 32} (condition : String)
    (fields : PackRead → Except Text.Error (α × PackRead)) (message : PackRead)
    (other : type ≠ expected) :
    getFields type expected condition fields message = .error (checkError condition) := by
  rw [getFields, if_pos other]

theorem getFields_ok {α : Type} {type : BitVec 32} (condition : String)
    {fields : PackRead → Except Text.Error (α × PackRead)} {message last ended : PackRead} {result : α}
    (reads : fields message = .ok (result, last)) (ends : pckReadEnd last = .ok ended) :
    getFields type type condition fields message = .ok (result, ended) := by
  unfold getFields
  rw [if_neg (not_not.mpr rfl), reads]
  dsimp only [bind, Except.bind]
  rw [ends]

theorem clientGet_other {client : ProtocolClient} {type : BitVec 32}
    (isType : pckReadU32 this 0 (0#32) = .ok (type, first))
    (noError : type ≠ protocolMessageTypeError) (other : type ≠ expected) :
    clientGet client expected condition fields this = .error (checkError condition) := by
  rw [clientGet_fields isType noError, getFields_other _ _ _ other]
  rfl

theorem serverGet_fields {type : BitVec 32} (isType : pckReadU32 this 0 (0#32) = .ok (type, first)) :
    serverGet expected condition fields this = getFields type expected condition fields first := by
  unfold serverGet
  rw [isType]
  rfl

theorem serverGet_other {type : BitVec 32} (isType : pckReadU32 this 0 (0#32) = .ok (type, first))
    (other : type ≠ expected) :
    serverGet expected condition fields this = .error (checkError condition) := by
  rw [serverGet_fields isType]
  exact getFields_other condition fields first other

def gotRest {α : Type} (got : Except Text.Error (α × PackRead)) : Except Text.Error (α × Bytes) :=
  got.map fun read => (read.1, read.2.rest)

theorem Holds.clientOther (holds : Holds message tail this) (client : ProtocolClient)
    (noError : (message.type == protocolMessageTypeError) = false)
    (other : (message.type == expected) = false) :
    gotRest (clientGet client expected condition fields this) = .error (checkError condition) := by
  obtain ⟨first, isType⟩ := holds.type
  rw [clientGet_other isType (ne_of_beq_false noError) (ne_of_beq_false other)]
  rfl

theorem Holds.serverOther (holds : Holds message tail this)
    (other : (message.type == expected) = false) :
    gotRest (serverGet expected condition fields this) = .error (checkError condition) := by
  obtain ⟨first, isType⟩ := holds.type
  rw [serverGet_other isType (ne_of_beq_false other)]
  rfl

theorem Holds.clientData (holds : Holds message tail this) (client : ProtocolClient) :
    gotRest (protocolClientDataGet client this) = (message.clientData client).map (·, tail) := by
  unfold protocolClientDataGet
  cases message with
  | data pack =>
    obtain ⟨first, last, ended, isType, inner, ends, isRest⟩ := holds.data
    rw [clientGet_fields isType (by decide), getFields_ok _ inner ends, ← isRest]
    rfl
  | dataEnd => exact holds.clientOther client rfl rfl
  | command id param => exact holds.clientOther client rfl rfl
  | error code message stack =>
    obtain ⟨ended, got, isRest⟩ := holds.error client protocolMessageTypeData
      "type == protocolMessageTypeData" (pckReadPack · 0)
    rw [got, ← isRest]
    rfl

theorem Holds.clientDataEnd (holds : Holds message tail this) (client : ProtocolClient) :
    gotRest (protocolClientDataEndGet client this) = (message.clientDataEnd client).map (·, tail) := by
  unfold protocolClientDataEndGet
  cases message with
  | data pack => exact holds.clientOther client rfl rfl
  | dataEnd =>
    obtain ⟨first, ended, isType, ends, isRest⟩ := holds.dataEnd
    rw [clientGet_fields isType (by decide), getFields_ok _ rfl ends, ← isRest]
    rfl
  | command id param => exact holds.clientOther client rfl rfl
  | error code message stack =>
    obtain ⟨ended, got, isRest⟩ := holds.error client protocolMessageTypeDataEnd
      "type == protocolMessageTypeDataEnd" fun response => .ok ((), response)
    rw [got, ← isRest]
    rfl

theorem Holds.serverCommand (holds : Holds message tail this) :
    gotRest (protocolServerCommandGet this) = message.serverCommand.map (·, tail) := by
  unfold protocolServerCommandGet
  cases message with
  | command id param =>
    obtain ⟨first, second, last, ended, isType, isId, inner, ends, isRest⟩ := holds.command
    rw [serverGet_fields isType, @getFields_ok _ _ _ commandFields _ last ended
      (id, param.map fun calls => (packReader calls).rest) _ ends, ← isRest]
    · rfl
    · unfold commandFields
      rw [isId]
      dsimp only [bind, Except.bind]
      rw [inner]
  | data pack => exact holds.serverOther rfl
  | dataEnd => exact holds.serverOther rfl
  | error code message stack => exact holds.serverOther rfl

theorem Holds.serverData (holds : Holds message tail this) :
    gotRest (protocolServerDataGet this) = message.serverData.map (·, tail) := by
  unfold protocolServerDataGet
  cases message with
  | data pack =>
    obtain ⟨first, last, ended, isType, inner, ends, isRest⟩ := holds.data
    rw [serverGet_fields isType, getFields_ok _ inner ends, ← isRest]
    rfl
  | command id param => exact holds.serverOther rfl
  | dataEnd => exact holds.serverOther rfl
  | error code message stack => exact holds.serverOther rfl

/-- Each of the gets finds the message that was put, with any buffer sizes and whatever follows: it
gives what the message holds, or the failed check of its type, and leaves the pipe behind it. -/
theorem packed_got (client : ProtocolClient) (write : Nat) (ready : read ≠ 0) {message : Message}
    (valid : ValidCalls 0 0 message.calls) (tail : Bytes) :
    ∃ bytes, message.packed write = .ok bytes ∧
      gotRest (protocolClientDataGet client (pckReadNew read (bytes ++ tail)))
        = (message.clientData client).map (·, tail) ∧
      gotRest (protocolClientDataEndGet client (pckReadNew read (bytes ++ tail)))
        = (message.clientDataEnd client).map (·, tail) ∧
      gotRest (protocolServerCommandGet (pckReadNew read (bytes ++ tail)))
        = message.serverCommand.map (·, tail) ∧
      gotRest (protocolServerDataGet (pckReadNew read (bytes ++ tail)))
        = message.serverData.map (·, tail) := by
  obtain ⟨bytes, packs, holds⟩ := holds_packed write ready valid tail
  exact ⟨bytes, packs, holds.clientData client, holds.clientDataEnd client, holds.serverCommand,
    holds.serverData⟩

/-- An unknown code, a writer and a reader with small buffers, and half a message behind it. -/
theorem packed_got_example :
    ∃ bytes, (Message.error 300 (zBytes "no space") (zBytes "stack")).packed 7 = .ok bytes ∧
      gotRest (protocolClientDataGet ⟨zBytes "raised from pg1", false⟩ (pckReadNew 3 (bytes ++ [8])))
        = .ok (.error ⟨125, zBytes "raised from pg1: no space"⟩, [8]) := by
  obtain ⟨bytes, packs, got, -⟩ := @packed_got 3 ⟨zBytes "raised from pg1", false⟩ 7 (by decide)
    (.error 300 (zBytes "no space") (zBytes "stack")) (by decide) [8]
  exact ⟨bytes, packs, got⟩

end Framing

end Protocol
