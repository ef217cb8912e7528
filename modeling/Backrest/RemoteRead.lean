import Backrest.ProtocolTalk

/-!
# Reading a file through the protocol

The server reads the file in buffers of its own size and puts each as data; the
client gives out what it gets in buffers of the sizes that its reader asks for.
Whatever the sizes, and however the two sides take turns, the reader gets the
bytes of the file and the results of the filters, or the error that stopped the
server, and the connection is ready for the next command.
-/

namespace RemoteRead

open Text StringId Pack Duplex ProtocolTalk
open Protocol hiding protocolClientDataGet protocolClientDataEndGet protocolServerDataGet

section Param

structure ReadParam where
  file : Option Bytes
  ignoreMissing : Bool
  limit : Option Bytes
  filter : Option Bytes
  deriving DecidableEq

def ReadParam.calls (param : ReadParam) : List Call :=
  [.str param.file 0 false none, .scalar .bool param.ignoreMissing 0 false false,
    .str param.limit 0 false none, .str param.filter 0 false none]

def ReadParam.get (param : PackRead) : Except Text.Error ReadParam := do
  let (file, param) ← pckReadStr param 0 none
  let (ignoreMissing, param) ← pckReadBool param 0 false
  let (limit, param) ← pckReadStr param 0 none
  let (filter, _) ← pckReadStr param 0 none
  .ok { file, ignoreMissing, limit, filter }

/-- The texts fit into a pack. -/
def ReadParam.Fits (param : ReadParam) : Prop :=
  (∀ bytes ∈ param.file, bytes.length < 2 ^ 64) ∧ (∀ bytes ∈ param.limit, bytes.length < 2 ^ 64) ∧
    ∀ bytes ∈ param.filter, bytes.length < 2 ^ 64

/-- A call that needs no place of its own. -/
structure Plain (call : Call) : Prop where
  id : call.id = 0
  valid : call.Valid
  aligned : call.Aligned

theorem str_plain {value : Option Bytes} (fits : ∀ bytes ∈ value, bytes.length < 2 ^ 64) :
    Plain (.str value 0 false none) where
  id := rfl
  valid := by
    rw [Call.Valid]
    exact ⟨fun _ => ⟨rfl, rfl⟩, fits⟩
  aligned := by simp only [Call.Aligned]

theorem scalar_plain (type : ScalarType) (value : type.Carrier) (defaultWrite : Bool)
    (defaultValue : type.Carrier) : Plain (.scalar type value 0 defaultWrite defaultValue) where
  id := rfl
  valid := by
    rw [Call.Valid]
    exact trivial
  aligned := by simp only [Call.Aligned]

theorem bin_plain {buffer : Bytes} (fits : buffer.length < 2 ^ 64) : Plain (.bin (some buffer) 0) where
  id := rfl
  valid := by
    rw [Call.Valid]
    intro bytes same
    cases same
    exact fits
  aligned := by simp only [Call.Aligned]

theorem plain_valid {calls : List Call} (plain : ∀ call ∈ calls, Plain call)
    (few : calls.length < 1000) : ValidCalls 0 0 calls := by
  apply valid_of_auto
  · exact fun call mem => ⟨(plain call mem).id, (plain call mem).valid⟩
  · exact Nat.lt_trans (by omega) (show 1000 < uintMax - 2 by decide)

theorem packReader_reads {calls : List Call} (plain : ∀ call ∈ calls, Plain call)
    (few : calls.length < 1000) :
    ∃ after, readRequests (requestsOf calls) (packReader calls) = .ok (answersOf calls, after) := by
  have valid := plain_valid plain few
  have aligned : Aligned 0 0 0 calls := by
    apply aligned_of_auto
    · exact fun call mem => ⟨(plain call mem).id, (plain call mem).aligned⟩
    · rfl
    · exact Nat.lt_trans (by omega) (show 1000 < uintMax - 1 by decide)
  have ready : (packReader calls).Ready := fun zero => by cases zero
  obtain ⟨after, reads, -⟩ := read_requests (requestsOf calls) ready (fieldsOf_valid calls valid)
    (At.between (pckReadNewBuf_between (fieldsOf 0 0 calls))) (by decide)
    (fields_answers calls valid aligned)
  exact ⟨after, reads⟩

theorem plain_single {call : Call} (plain : Plain call) : ∀ other ∈ [call], Plain other := by
  intro other mem
  rcases List.mem_singleton.mp mem with rfl
  exact plain

theorem ReadParam.get_calls {param : ReadParam} (fits : param.Fits) :
    ReadParam.get (packReader param.calls) = .ok param := by
  obtain ⟨file, limit, filter⟩ := fits
  have plain : ∀ call ∈ param.calls, Plain call := by
    intro call mem
    unfold ReadParam.calls at mem
    simp only [List.mem_cons, List.not_mem_nil, or_false] at mem
    rcases mem with rfl | rfl | rfl | rfl
    · exact str_plain file
    · exact scalar_plain .bool _ _ _
    · exact str_plain limit
    · exact str_plain filter
  obtain ⟨last, reads⟩ := packReader_reads plain (show 4 < 1000 by decide)
  obtain ⟨first, isFile, reads⟩ := readRequests_cons reads
  obtain ⟨second, isMissing, reads⟩ := readRequests_cons reads
  obtain ⟨third, isLimit, reads⟩ := readRequests_cons reads
  obtain ⟨fourth, isFilter, -⟩ := readRequests_cons reads
  have missing : pckReadBool first 0 false = .ok (param.ignoreMissing, second) := read_scalar isMissing
  unfold ReadParam.get
  rw [read_str isFile]
  dsimp only [bind, Except.bind]
  rw [missing]
  dsimp only
  rw [read_str isLimit]
  dsimp only
  rw [read_str isFilter]

end Param

section Server
variable {T α : Type}

/-- `STRID5("s-or", 0x93f730)` -/
def protocolCommandStorageOpenRead : BitVec 64 := 0x93f730

/-- What `ioRead` puts into the buffer, call by call until the end of the file, and then the results
of the filters or the error that stops it. -/
structure Reading where
  buffers : List Bytes
  result : Except Thrown Bytes

def putBuffers : List Bytes → Proc Message α → Proc Message α
  | [], next => next
  | buffer :: rest, next =>
    if buffer.isEmpty then putBuffers rest next
    else protocolServerDataPut (some [.bin (some buffer) 0]) (putBuffers rest next)

/-- The driver opens the file: there is none, or it is read. -/
abbrev OpenRead (T : Type) := ReadParam → T → Except Thrown (Option Reading) × T

def resultPut (state : T) : Except Thrown Bytes → Proc Message (Except Failure Unit × T)
  | .error error => .done (.error (.thrown error), state)
  | .ok results => protocolServerDataPut (some [.str (some results) 0 false none])
      (protocolServerDataEndPut (.done (.ok (), state)))

def fileRead : Except Thrown (Option Reading) × T → Proc Message (Except Failure Unit × T)
  | (.error error, state) => .done (.error (.thrown error), state)
  | (.ok none, state) => protocolServerDataPut (some [.scalar .bool false 0 true false])
      (protocolServerDataEndPut (.done (.ok (), state)))
  | (.ok (some reading), state) => protocolServerDataPut (some [.scalar .bool true 0 true false])
      (putBuffers reading.buffers (resultPut state reading.result))

def storageRemoteOpenReadProtocol (openRead : OpenRead T) : Handler T := fun param state =>
  match param.elim (.error (assertError "param != NULL")) ReadParam.get with
  | .error error => .done (.error (.thrown (thrownOf error)), state)
  | .ok param => fileRead (openRead param state)

end Server

section Client

structure StorageReadRemote where
  remaining : Nat := 0
  block : Bytes := []
  eof : Bool := false
  results : Option Bytes := none
  deriving DecidableEq

def readExists (response : Option PackRead) : Except Text.Error Bool :=
  match response with
  | none => .error (assertError "this != NULL")
  | some response => do .ok (← pckReadBool response 0 false).1

def openGot (client : ProtocolClient) (response : Option PackRead) : Talk Bool :=
  match readExists response with
  | .error error => .done (.error (.thrown (thrownOf error)))
  | .ok true => .done (.ok true)
  | .ok false => andThen (protocolClientDataEndGet client) fun _ => .done (.ok false)

def storageReadRemoteOpen (client : ProtocolClient) (param : ReadParam) : Talk Bool :=
  protocolClientCommandPut protocolCommandStorageOpenRead (some param.calls)
    (andThen (protocolClientDataGet client) (openGot client))

inductive Block where
  | data (bytes : Bytes)
  | results (json : Option Bytes)

/-- Anything that is not binary is the result of the filters. -/
def blockOf (read : PackRead) : Except Text.Error Block :=
  if pckReadType read = some .bin then do
    .ok (.data ((← pckReadBin read 0).1.getD []))
  else do
    .ok (.results (← pckReadStr read 0 none).1)

def readBlock (read : Option PackRead) : Except Text.Error Block :=
  match read with
  | none => .error (assertError "this != NULL")
  | some read => do blockOf (← pckReadNext read).2

def blockGot (client : ProtocolClient) (this : StorageReadRemote) (read : Option PackRead) :
    Talk StorageReadRemote :=
  match readBlock read with
  | .error error => .done (.error (.thrown (thrownOf error)))
  | .ok (.data block) => .done (.ok { this with block, remaining := block.length })
  | .ok (.results json) => andThen (protocolClientDataEndGet client) fun _ =>
      .done (.ok { this with block := [], results := json, eof := true })

def nextBlock (client : ProtocolClient) (this : StorageReadRemote) : Talk StorageReadRemote :=
  if this.remaining = 0 then andThen (protocolClientDataGet client) (blockGot client this)
  else .done (.ok this)

/-- All the remaining bytes if the buffer can contain them, else what it can. -/
def copyBlock (this : StorageReadRemote) (buffer : Bytes) (size : Nat) : StorageReadRemote × Bytes :=
  let remains := size - buffer.length
  let left := this.block.drop (this.block.length - this.remaining)
  if this.remaining ≤ remains then
    ({ this with remaining := 0, block := [] }, buffer ++ left.take this.remaining)
  else ({ this with remaining := this.remaining - remains }, buffer ++ left.take remains)

/-- Each round gets a block or copies the rest of one, so that `blocks + 2` rounds are enough. -/
def readLoop (client : ProtocolClient) (size : Nat) :
    Nat → StorageReadRemote → Bytes → Talk (StorageReadRemote × Bytes)
  | 0, this, buffer => .done (.ok (this, buffer))
  | rounds + 1, this, buffer => andThen (nextBlock client this) fun this =>
    if this.eof then .done (.ok (this, buffer))
    else if (copyBlock this buffer size).2.length < size then
      readLoop client size rounds (copyBlock this buffer size).1 (copyBlock this buffer size).2
    else .done (.ok (copyBlock this buffer size))

/-- Read into an empty buffer of the size. -/
def storageReadRemote (client : ProtocolClient) (rounds : Nat) (this : StorageReadRemote) (size : Nat) :
    Talk (StorageReadRemote × Bytes) :=
  if this.eof then .done (.ok (this, [])) else readLoop client size rounds this []

/-- A reader that reads to the end of the file, each call with a buffer of its own size. -/
def readAll (client : ProtocolClient) (size : Nat → Nat) (rounds : Nat) :
    Nat → Nat → StorageReadRemote → Talk (List Bytes × Option Bytes)
  | 0, _, this => .done (.ok ([], this.results))
  | calls + 1, call, this =>
    if this.eof then .done (.ok ([], this.results))
    else andThen (storageReadRemote client rounds this (size call)) fun (this, buffer) =>
      andThen (readAll client size rounds calls (call + 1) this) fun (rest, results) =>
        .done (.ok (buffer :: rest, results))

def readFile (client : ProtocolClient) (param : ReadParam) (size : Nat → Nat) (rounds calls : Nat) :
    Talk (Option (List Bytes × Option Bytes)) :=
  andThen (storageReadRemoteOpen client param) fun opened =>
    if opened then andThen (readAll client size rounds calls 0 {}) fun read => .done (.ok (some read))
    else .done (.ok none)

end Client

section Block

theorem packReader_next {calls : List Call} {field : Field} (valid : ValidCalls 0 0 calls)
    (isField : fieldsOf 0 0 calls = [field]) (first : field.id = 1) :
    ∃ next, pckReadNext (packReader calls) = .ok (true, next) ∧
      pckReadType next = (packTypeMapData field.typeMap).type ∧
      ∀ request : Request, request.id = 0 → request.isNull = false → ∀ answer,
        request.answer field = some answer → ∃ after, request.read next = .ok (answer, after) := by
  have fieldValid := fieldsOf_valid calls valid
  have ready : (packReader calls).Ready := fun zero => by cases zero
  have stands := pckReadNewBuf_between (fieldsOf 0 0 calls)
  rw [isField] at fieldValid stands
  have same : packReader calls = pckReadNewBuf (fieldsBytes 0 [field] ++ [0]) := by
    rw [packReader, isField]
  rw [same] at ready ⊢
  obtain ⟨next, found, keeps, before⟩ := pckReadNext_field ready fieldValid stands
  refine ⟨next, found, ?_, ?_⟩
  · unfold pckReadType
    rw [before.tagNextTypeMap]
  · intro request auto notNull answer isAnswer
    have stays : skip 1 0 [field] = some (0, [field]) := by
      rw [skip, first, if_neg (Nat.lt_irrefl 1)]
    have own : idAt request.id 0 = 1 := by
      rw [idAt, if_pos auto]
    have asks : Asks [] next request.id 1 0 [field] 0 [field] :=
      ⟨own.symm, keeps.ready ready, fieldValid, At.before before, Nat.zero_lt_one, by decide, stays⟩
    obtain ⟨after, read, -⟩ := read_request request asks first isAnswer
    exact ⟨after, read⟩

theorem readBlock_bin {buffer : Bytes} (fits : buffer.length < 2 ^ 64) :
    readBlock (some (packReader [.bin (some buffer) 0])) = .ok (.data buffer) := by
  have valid := plain_valid (plain_single (bin_plain fits)) (show 1 < 1000 by decide)
  obtain ⟨next, found, isType, reads⟩ := packReader_next valid rfl rfl
  obtain ⟨after, read⟩ := reads (.bin 0) rfl rfl (.bytes (some buffer)) rfl
  unfold readBlock
  dsimp only
  rw [found]
  dsimp only [bind, Except.bind]
  have isBin : pckReadType next = some .bin := isType
  unfold blockOf
  rw [if_pos isBin, read_bin read]
  rfl

theorem readBlock_str {json : Bytes} (fits : json.length < 2 ^ 64) :
    readBlock (some (packReader [.str (some json) 0 false none])) = .ok (.results (some json)) := by
  have plain : Plain (.str (some json) 0 false none) := str_plain fun bytes same => by
    cases same
    exact fits
  have valid := plain_valid (plain_single plain) (show 1 < 1000 by decide)
  obtain ⟨next, found, isType, reads⟩ := packReader_next valid rfl rfl
  obtain ⟨after, read⟩ := reads (.str 0 none) rfl rfl (.bytes (some json)) rfl
  unfold readBlock
  dsimp only
  rw [found]
  dsimp only [bind, Except.bind]
  have notBin : pckReadType next ≠ some .bin := by
    rw [isType]
    exact (by decide : (packTypeMapData .str).type ≠ some .bin)
  unfold blockOf
  rw [if_neg notBin, read_str read]
  rfl

theorem readExists_bool (found : Bool) :
    readExists (some (packReader [.scalar .bool found 0 true false])) = .ok found := by
  obtain ⟨after, reads⟩ := packReader_reads (plain_single (scalar_plain .bool found true false))
    (show 1 < 1000 by decide)
  obtain ⟨first, read, -⟩ := readRequests_cons reads
  have isBool : pckReadBool (packReader [.scalar .bool found 0 true false]) 0 false = .ok (found, first) :=
    read_scalar read
  unfold readExists
  dsimp only
  rw [isBool]
  rfl

end Block

section Read
variable {client : ProtocolClient} {server : ProtocolServer} {size : Nat} {this : StorageReadRemote}
  {result : Except Thrown Bytes} {bytes : Bytes} {blocks : List Bytes}

def restMessages (server : ProtocolServer) (blocks : List Bytes) (result : Except Thrown Bytes) :
    List Message :=
  blocks.map (fun block => .data (some [.bin (some block) 0])) ++ match result with
    | .ok results => [.data (some [.str (some results) 0 false none]), .dataEnd]
    | .error error => [.error error.code error.message (server.stackTrace error)]

structure Left (this : StorageReadRemote) (bytes : Bytes) : Prop where
  eof : this.eof = false
  remaining : this.remaining = bytes.length
  block : ∃ copied, this.block = copied ++ bytes

/-- What is sent fits into packs. -/
structure Sendable (blocks : List Bytes) (result : Except Thrown Bytes) : Prop where
  blocks : ∀ block ∈ blocks, block.length < 2 ^ 64
  results : ∀ results, result = .ok results → results.length < 2 ^ 64

theorem copyBlock_left (left : Left this bytes) (buffer : Bytes) (size : Nat) :
    (copyBlock this buffer size).2 = buffer ++ bytes.take (size - buffer.length) ∧
      Left (copyBlock this buffer size).1 (bytes.drop (size - buffer.length)) := by
  obtain ⟨eof, remaining, copied, block⟩ := left
  have isLeft : this.block.drop (this.block.length - this.remaining) = bytes := by
    rw [block, remaining, List.length_append, Nat.add_sub_cancel, List.drop_left]
  unfold copyBlock
  rw [isLeft]
  dsimp only
  by_cases fits : this.remaining ≤ size - buffer.length
  · rw [if_pos fits, List.take_of_length_le (by omega), List.drop_of_length_le (by omega),
      List.take_of_length_le (by omega)]
    exact ⟨rfl, eof, rfl, [], rfl⟩
  · rw [if_neg fits]
    refine ⟨rfl, eof, ?_, copied ++ bytes.take (size - buffer.length), ?_⟩
    · rw [remaining, List.length_drop]
    · rw [List.append_assoc, List.take_append_drop]
      exact block

theorem nextBlock_some (left : Left this bytes) (sendable : Sendable blocks result)
    (more : bytes ≠ [] ∨ blocks ≠ []) :
    ∃ this' bytes' blocks',
      (nextBlock client this).eval (restMessages server blocks result)
        = some (.ok this', restMessages server blocks' result) ∧
      Left this' bytes' ∧ Sendable blocks' result ∧
      bytes' ++ blocks'.flatten = bytes ++ blocks.flatten ∧
      (bytes = [] → blocks'.length + 1 = blocks.length) ∧ blocks'.length ≤ blocks.length := by
  by_cases empty : bytes = []
  · subst empty
    have zero : this.remaining = 0 := left.remaining
    cases blocks with
    | nil => exact absurd rfl (more.resolve_left (not_not.mpr rfl))
    | cons block rest =>
      have read := readBlock_bin (sendable.blocks block List.mem_cons_self)
      refine ⟨{ this with block, remaining := block.length }, block, rest, ?_, ⟨left.eof, rfl, [], rfl⟩,
        ⟨fun other mem => sendable.blocks other (List.mem_cons_of_mem block mem), sendable.results⟩,
        ?_, fun _ => rfl, Nat.le_succ _⟩
      · unfold nextBlock
        rw [if_pos zero]
        show Proc.eval (blockGot client this (some (packReader [.bin (some block) 0]))) _ = _
        rw [blockGot, read]
        rfl
      · rw [List.flatten_cons, List.nil_append]
  · have some : this.remaining ≠ 0 := by
      rw [left.remaining]
      exact fun zero => empty (List.length_eq_zero_iff.mp zero)
    refine ⟨this, bytes, blocks, ?_, left, sendable, rfl, fun isEmpty => absurd isEmpty empty, le_rfl⟩
    unfold nextBlock
    rw [if_neg some]
    rfl

theorem nextBlock_results {results : Bytes} (left : Left this [])
    (fits : results.length < 2 ^ 64) :
    (nextBlock client this).eval (restMessages server [] (.ok results))
      = some (.ok { this with block := [], results := some results, eof := true }, []) := by
  have zero : this.remaining = 0 := left.remaining
  unfold nextBlock
  rw [if_pos zero]
  show Proc.eval (blockGot client this (some (packReader [.str (some results) 0 false none]))) _ = _
  rw [blockGot, readBlock_str fits]
  rfl

theorem nextBlock_error {error : Thrown} (left : Left this []) :
    (nextBlock client this).eval (restMessages server [] (.error error))
      = some (.error (.thrown (errorText client error.code error.message (server.stackTrace error))),
          []) := by
  have zero : this.remaining = 0 := left.remaining
  unfold nextBlock
  rw [if_pos zero]
  rfl

theorem rounds_left {blocks' : List Bytes} {rounds : Nat}
    (fewer : bytes = [] → blocks'.length + 1 = blocks.length) (notMore : blocks'.length ≤ blocks.length)
    (enough : blocks.length + 1 + (if bytes = [] then 0 else 1) ≤ rounds + 1) :
    blocks'.length + 1 + (if ([] : Bytes) = [] then 0 else 1) ≤ rounds := by
  rw [if_pos rfl]
  by_cases empty : bytes = []
  · have one := fewer empty
    rw [if_pos empty] at enough
    omega
  · rw [if_neg empty] at enough
    omega

/-- The buffer is filled while there are bytes enough. -/
theorem readLoop_full (rounds : Nat) : ∀ {this : StorageReadRemote} {buffer bytes : Bytes}
    {blocks : List Bytes}, Left this bytes → Sendable blocks result → buffer.length < size →
    blocks.length + 1 + (if bytes = [] then 0 else 1) ≤ rounds →
    size ≤ buffer.length + (bytes ++ blocks.flatten).length →
    ∃ this' bytes' blocks',
      (readLoop client size rounds this buffer).eval (restMessages server blocks result)
        = some (.ok (this', buffer ++ (bytes ++ blocks.flatten).take (size - buffer.length)),
            restMessages server blocks' result) ∧
      Left this' bytes' ∧ Sendable blocks' result ∧
      bytes' ++ blocks'.flatten = (bytes ++ blocks.flatten).drop (size - buffer.length) ∧
      blocks'.length ≤ blocks.length := by
  induction rounds with
  | zero =>
    intro this buffer bytes blocks _ _ _ enough _
    omega
  | succ rounds ih =>
    intro this buffer bytes blocks left sendable room enough full
    have more : bytes ≠ [] ∨ blocks ≠ [] := by
      by_contra neither
      rw [not_or, not_not, not_not] at neither
      rw [neither.1, neither.2] at full
      rw [List.flatten_nil, List.append_nil, List.length_nil] at full
      omega
    obtain ⟨this₁, bytes₁, blocks₁, evaluates, left₁, sendable₁, same, fewer, notMore⟩ :=
      @nextBlock_some client server this result bytes blocks left sendable more
    obtain ⟨copied, left₂⟩ := copyBlock_left left₁ buffer size
    have notEof : ¬this₁.eof = true := by
      rw [left₁.eof]
      exact Bool.false_ne_true
    rw [readLoop, andThen_ok evaluates, if_neg notEof, ← same]
    by_cases short : (copyBlock this₁ buffer size).2.length < size
    · rw [if_pos short]
      have under : bytes₁.length < size - buffer.length := by
        rw [copied, List.length_append, List.length_take] at short
        omega
      rw [List.take_of_length_le (by omega)] at copied
      rw [List.drop_of_length_le (by omega)] at left₂
      have rounds' := rounds_left fewer notMore enough
      have length : (copyBlock this₁ buffer size).2.length = buffer.length + bytes₁.length := by
        rw [copied, List.length_append]
      have full' : size ≤ (copyBlock this₁ buffer size).2.length + ([] ++ blocks₁.flatten).length := by
        rw [← same, List.length_append] at full
        rw [length, List.nil_append]
        omega
      obtain ⟨this', bytes', blocks', evaluates', left', sendable', rest, notMore'⟩ :=
        ih left₂ sendable₁ short rounds' full'
      refine ⟨this', bytes', blocks', ?_, left', sendable', ?_, Nat.le_trans notMore' notMore⟩
      · rw [evaluates', List.nil_append, length, copied, List.append_assoc, List.take_append,
          List.take_of_length_le (show bytes₁.length ≤ size - buffer.length by omega), Nat.sub_sub]
      · rw [rest, List.nil_append, length, List.drop_append,
          List.drop_of_length_le (show bytes₁.length ≤ size - buffer.length by omega),
          List.nil_append, Nat.sub_sub]
    · rw [if_neg short]
      have covers : size - buffer.length ≤ bytes₁.length := by
        rw [copied, List.length_append, List.length_take] at short
        omega
      refine ⟨(copyBlock this₁ buffer size).1, bytes₁.drop (size - buffer.length), blocks₁, ?_, left₂,
        sendable₁, ?_, notMore⟩
      · rw [List.take_append_of_le_length covers, ← copied]
        rfl
      · rw [List.drop_append_of_le_length covers]

/-- The file ends before the buffer is full. -/
theorem readLoop_drain (rounds : Nat) : ∀ {this : StorageReadRemote} {buffer bytes : Bytes}
    {blocks : List Bytes}, Left this bytes → Sendable blocks result →
    blocks.length + 1 + (if bytes = [] then 0 else 1) ≤ rounds →
    buffer.length + (bytes ++ blocks.flatten).length < size →
    ∃ rounds' this', Left this' [] ∧
      (readLoop client size rounds this buffer).eval (restMessages server blocks result)
        = (readLoop client size (rounds' + 1) this' (buffer ++ (bytes ++ blocks.flatten))).eval
            (restMessages server [] result) := by
  induction rounds with
  | zero =>
    intro this buffer bytes blocks _ _ enough _
    omega
  | succ rounds ih =>
    intro this buffer bytes blocks left sendable enough short
    by_cases more : bytes ≠ [] ∨ blocks ≠ []
    · obtain ⟨this₁, bytes₁, blocks₁, evaluates, left₁, sendable₁, same, fewer, notMore⟩ :=
        @nextBlock_some client server this result bytes blocks left sendable more
      obtain ⟨copied, left₂⟩ := copyBlock_left left₁ buffer size
      have notEof : ¬this₁.eof = true := by
        rw [left₁.eof]
        exact Bool.false_ne_true
      rw [← same] at short ⊢
      rw [List.length_append] at short
      rw [List.take_of_length_le (by omega)] at copied
      rw [List.drop_of_length_le (by omega)] at left₂
      have room : (copyBlock this₁ buffer size).2.length < size := by
        rw [copied, List.length_append]
        omega
      have rounds' := rounds_left fewer notMore enough
      have short' : (copyBlock this₁ buffer size).2.length + ([] ++ blocks₁.flatten).length < size := by
        rw [copied, List.length_append, List.nil_append]
        omega
      obtain ⟨last, this', left', evaluates'⟩ := ih left₂ sendable₁ rounds' short'
      refine ⟨last, this', left', ?_⟩
      rw [readLoop, andThen_ok evaluates, if_neg notEof, if_pos room, evaluates', List.nil_append,
        copied, List.append_assoc]
    · rw [not_or, not_not, not_not] at more
      obtain ⟨rfl, rfl⟩ := more
      exact ⟨rounds, this, left, by rw [List.flatten_nil, List.append_nil, List.append_nil]⟩

inductive Fills (size : Nat → Nat) : Nat → List Bytes → Prop
  | last {call : Nat} {buffer : Bytes} (short : buffer.length < size call) : Fills size call [buffer]
  | full {call : Nat} {buffer : Bytes} {rest : List Bytes} (full : buffer.length = size call)
    (others : Fills size (call + 1) rest) : Fills size call (buffer :: rest)

def readEnd (client : ProtocolClient) (server : ProtocolServer) (out : List Bytes) :
    Except Thrown Bytes → Except Failure (List Bytes × Option Bytes)
  | .ok results => .ok (out, some results)
  | .error error =>
    .error (.thrown (errorText client error.code error.message (server.stackTrace error)))

theorem readAll_eval {size : Nat → Nat} (positive : ∀ call, 0 < size call) {rounds : Nat}
    (calls : Nat) : ∀ {call : Nat} {this : StorageReadRemote} {bytes : Bytes} {blocks : List Bytes},
    Left this bytes → Sendable blocks result → blocks.length + 2 ≤ rounds →
    (bytes ++ blocks.flatten).length < calls →
    ∃ out, (readAll client size rounds calls call this).eval (restMessages server blocks result)
        = some (readEnd client server out result, []) ∧
      out.flatten = bytes ++ blocks.flatten ∧ Fills size call out := by
  induction calls with
  | zero =>
    intro call this bytes blocks _ _ _ few
    omega
  | succ calls ih =>
    intro call this bytes blocks left sendable enough few
    have notEof : ¬this.eof = true := by
      rw [left.eof]
      exact Bool.false_ne_true
    have enough' : blocks.length + 1 + (if bytes = [] then 0 else 1) ≤ rounds := by
      split <;> omega
    rw [readAll, if_neg notEof, storageReadRemote, if_neg notEof]
    by_cases full : size call ≤ (bytes ++ blocks.flatten).length
    · obtain ⟨this', bytes', blocks', evaluates, left', sendable', rest, notMore⟩ :=
        @readLoop_full client server (size call) result rounds this [] bytes blocks left sendable
          (positive call) enough' (by rw [List.length_nil, Nat.zero_add]; exact full)
      rw [List.length_nil, Nat.sub_zero] at evaluates rest
      have fewer : (bytes' ++ blocks'.flatten).length < calls := by
        have some := positive call
        rw [rest, List.length_drop]
        omega
      obtain ⟨out, reads, flat, fills⟩ := @ih (call + 1) this' bytes' blocks' left' sendable'
        (by omega) fewer
      refine ⟨(bytes ++ blocks.flatten).take (size call) :: out, ?_, ?_, Fills.full ?_ fills⟩
      · rw [andThen_ok evaluates, List.nil_append]
        cases result with
        | ok results => exact andThen_ok reads _
        | error error => exact andThen_error reads _
      · rw [List.flatten_cons, flat, rest, List.take_append_drop]
      · rw [List.length_take]
        omega
    · have short : ([] : Bytes).length + (bytes ++ blocks.flatten).length < size call := by
        rw [List.length_nil]
        omega
      obtain ⟨last, this', left', evaluates⟩ :=
        @readLoop_drain client server (size call) result rounds this [] bytes blocks left sendable
          enough' short
      refine ⟨[bytes ++ blocks.flatten], ?_, List.flatten_singleton, Fills.last (by omega)⟩
      rw [List.nil_append] at evaluates
      cases result with
      | error error =>
        have stops := @nextBlock_error client server this' error left'
        rw [readLoop, andThen_error stops] at evaluates
        exact andThen_error evaluates _
      | ok results =>
        have ends := @nextBlock_results client server this' results left'
          (sendable.results results rfl)
        rw [readLoop, andThen_ok ends, if_pos rfl] at evaluates
        rw [andThen_ok evaluates]
        have ended : (readAll client size rounds calls (call + 1)
            { this' with block := [], results := some results, eof := true }).eval []
            = some (.ok ([], some results), []) := by
          cases calls <;> rfl
        exact andThen_ok ended _

end Read

section File
variable {T : Type} {client : ProtocolClient} {server : ProtocolServer} {spill : Spill Message}
  {handlers : List (BitVec 64 × Handler T)} {openRead : OpenRead T} {param : ReadParam}

/-- The buffers that are put. -/
def blocksOf (buffers : List Bytes) : List Bytes := buffers.filter fun buffer => !buffer.isEmpty

theorem blocksOf_flatten (buffers : List Bytes) : (blocksOf buffers).flatten = buffers.flatten := by
  induction buffers with
  | nil => rfl
  | cons buffer rest ih =>
    unfold blocksOf at ih ⊢
    cases buffer with
    | nil => exact ih
    | cons byte bytes => exact congrArg ((byte :: bytes) ++ ·) ih

theorem putBuffers_eq {α : Type} (buffers : List Bytes) (next : Proc Message α) :
    putBuffers buffers next
      = .puts ((blocksOf buffers).map fun block => .data (some [.bin (some block) 0])) next := by
  induction buffers with
  | nil => rfl
  | cons buffer rest ih =>
    unfold blocksOf at ih ⊢
    cases buffer with
    | nil => exact ih
    | cons byte bytes => exact congrArg (Proc.put (.data (some [.bin (some (byte :: bytes)) 0])) false) ih

/-- What the server puts for a file that is opened like this. -/
def readMessages (server : ProtocolServer) : Except Thrown (Option Reading) → List Message
  | .error error => [.error error.code error.message (server.stackTrace error)]
  | .ok none => [.data (some [.scalar .bool false 0 true false]), .dataEnd]
  | .ok (some reading) =>
    .data (some [.scalar .bool true 0 true false]) ::
      restMessages server (blocksOf reading.buffers) reading.result

theorem process_openRead {id : BitVec 64}
    (found : handlers.find? (·.1 == protocolCommandStorageOpenRead)
      = some (id, storageRemoteOpenReadProtocol openRead))
    (noRetry : server.retries = 0) (fits : param.Fits) (state : T) :
    ∃ init last, protocolServerProcess server handlers state
        (.command protocolCommandStorageOpenRead (some param.calls))
          = .puts init (.put last true (.done (.ready (openRead param state).2))) ∧
      init ++ [last] = readMessages server (openRead param state).1 := by
  have isParam : (some (packReader param.calls)).elim (.error (assertError "param != NULL"))
      ReadParam.get = .ok param := ReadParam.get_calls fits
  have isHandler : storageRemoteOpenReadProtocol openRead (some (packReader param.calls)) state
      = fileRead (openRead param state) := by
    unfold storageRemoteOpenReadProtocol
    rw [isParam]
  rw [process_handler found noRetry, Option.map_some, isHandler]
  rcases openRead param state with ⟨opened, after⟩
  cases opened with
  | error error => exact ⟨[], _, rfl, rfl⟩
  | ok reading =>
    cases reading with
    | none => exact ⟨[_], _, rfl, rfl⟩
    | some reading =>
      obtain ⟨buffers, result⟩ := reading
      rw [fileRead, putBuffers_eq]
      cases result with
      | error error =>
        refine ⟨.data (some [.scalar .bool true 0 true false]) ::
          (blocksOf buffers).map fun block => .data (some [.bin (some block) 0]), _, ?_, rfl⟩
        unfold protocolServerDataPut
        rw [Proc.bind, Proc.puts_bind, Proc.puts]
        rfl
      | ok results =>
        refine ⟨.data (some [.scalar .bool true 0 true false]) ::
          ((blocksOf buffers).map (fun block => .data (some [.bin (some block) 0])) ++
            [.data (some [.str (some results) 0 false none])]), .dataEnd, ?_, ?_⟩
        · unfold protocolServerDataPut
          rw [Proc.bind, Proc.puts_bind, Proc.puts, Proc.puts_append]
          rfl
        · unfold readMessages restMessages
          rw [List.cons_append, List.append_assoc]
          rfl

/-- What the client does after the command was put. -/
def readFileGet (client : ProtocolClient) (size : Nat → Nat) (rounds calls : Nat) :
    Talk (Option (List Bytes × Option Bytes)) :=
  andThen (andThen (protocolClientDataGet client) (openGot client)) fun opened =>
    if opened then andThen (readAll client size rounds calls 0 {}) fun read => .done (.ok (some read))
    else .done (.ok none)

theorem openGot_bool (found : Bool) :
    openGot client (some (packReader [.scalar .bool found 0 true false]))
      = if found then .done (.ok true)
        else andThen (protocolClientDataEndGet client) fun _ => .done (.ok false) := by
  unfold openGot
  rw [readExists_bool]
  cases found <;> rfl

/-- The file as the reader gets it: its bytes in buffers that are full but for the last and the results
of the filters, or no file, or the error of the server. -/
inductive Reads (client : ProtocolClient) (server : ProtocolServer) (size : Nat → Nat) :
    Except Thrown (Option Reading) → Except Failure (Option (List Bytes × Option Bytes)) → Prop
  | failed (error : Thrown) : Reads client server size (.error error)
      (.error (.thrown (errorText client error.code error.message (server.stackTrace error))))
  | missing : Reads client server size (.ok none) (.ok none)
  | stopped (buffers : List Bytes) (error : Thrown) :
      Reads client server size (.ok (some ⟨buffers, .error error⟩))
        (.error (.thrown (errorText client error.code error.message (server.stackTrace error))))
  | complete {buffers out : List Bytes} {results : Bytes} (same : out.flatten = buffers.flatten)
      (fills : Fills size 0 out) :
      Reads client server size (.ok (some ⟨buffers, .ok results⟩)) (.ok (some (out, some results)))

/-- The loops of the client end within these bounds. -/
def Bounded (rounds calls : Nat) : Except Thrown (Option Reading) → Prop
  | .ok (some reading) =>
    reading.buffers.length + 2 ≤ rounds ∧ reading.buffers.flatten.length < calls
  | _ => True

/-- What the server reads fits into packs. -/
def Packable : Except Thrown (Option Reading) → Prop
  | .ok (some reading) => Sendable reading.buffers reading.result
  | _ => True

theorem readFileGet_eval {size : Nat → Nat} (positive : ∀ call, 0 < size call) {rounds calls : Nat}
    {opened : Except Thrown (Option Reading)} (bounded : Bounded rounds calls opened)
    (packable : Packable opened) :
    ∃ result, (readFileGet client size rounds calls).eval (readMessages server opened)
        = some (result, []) ∧ Reads client server size opened result := by
  cases opened with
  | error error => exact ⟨_, rfl, Reads.failed error⟩
  | ok reading =>
    cases reading with
    | none =>
      refine ⟨_, ?_, Reads.missing⟩
      unfold readFileGet
      show Proc.eval (Proc.bind (openGot client (some (packReader [.scalar .bool false 0 true false])))
        _) _ = _
      rw [openGot_bool]
      rfl
    | some reading =>
      obtain ⟨buffers, result⟩ := reading
      obtain ⟨enough, few⟩ := bounded
      obtain ⟨sendable, results⟩ := packable
      dsimp only at enough few sendable results
      have blocks : Sendable (blocksOf buffers) result :=
        ⟨fun block mem => sendable block (List.mem_filter.mp mem).1, results⟩
      have fewer : (blocksOf buffers).length ≤ buffers.length := List.length_filter_le _ _
      obtain ⟨out, reads, flat, fills⟩ := @readAll_eval client server result size positive rounds calls
        0 {} [] (blocksOf buffers) ⟨rfl, rfl, [], rfl⟩ blocks (by omega)
        (by rw [List.nil_append, blocksOf_flatten]; exact few)
      rw [List.nil_append, blocksOf_flatten] at flat
      have opens : (readFileGet client size rounds calls).eval
          (readMessages server (.ok (some ⟨buffers, result⟩)))
          = (andThen (readAll client size rounds calls 0 {}) fun read => .done (.ok (some read))).eval
              (restMessages server (blocksOf buffers) result) := by
        unfold readFileGet
        show Proc.eval (Proc.bind (openGot client (some (packReader [.scalar .bool true 0 true false])))
          _) _ = _
        rw [openGot_bool]
        rfl
      cases result with
      | ok results =>
        exact ⟨_, opens.trans (andThen_ok reads _), Reads.complete flat fills⟩
      | error error =>
        exact ⟨_, opens.trans (andThen_error reads _), Reads.stopped buffers error⟩

/-- In any order of steps the reader gets the file, and the server waits for the next command. -/
theorem readFile_every_run (client : ProtocolClient) (spill : Spill Message) {id : BitVec 64}
    (found : handlers.find? (·.1 == protocolCommandStorageOpenRead)
      = some (id, storageRemoteOpenReadProtocol openRead))
    (noRetry : server.retries = 0) (fits : param.Fits) {size : Nat → Nat}
    (positive : ∀ call, 0 < size call) (state : T) (packable : Packable (openRead param state).1)
    {rounds calls : Nat} (bounded : Bounded rounds calls (openRead param state).1) :
    ∃ result, Reads client server size (openRead param state).1 result ∧
      EveryRun (serverLoop server handlers) spill (readFile client param size rounds calls)
        (.ready state) result (.ready (openRead param state).2) := by
  obtain ⟨result, gets, reads⟩ := @readFileGet_eval client server size positive rounds calls _ bounded
    packable
  obtain ⟨init, last, process, all⟩ := @process_openRead T server handlers openRead param id found
    noRetry fits state
  refine ⟨result, reads, Answers.every_run ?_⟩
  intro U next
  have taken := @goes_command T spill _ _ (serverLoop server handlers) protocolCommandStorageOpenRead
    (some param.calls) state _ rfl (readFileGet client size rounds calls) next
  rw [process] at taken
  have puts := @goes_serverPuts _ _ _ (serverLoop server handlers) spill {} {} init last
    ((readFileGet client size rounds calls).bind next) (.done (.ready (openRead param state).2))
  rw [Queue.all_empty, List.nil_append, all] at puts
  have gets := @goes_clientEval _ _ _ _ (serverLoop server handlers) spill {}
    (readFileGet client size rounds calls) (.done (.ready (openRead param state).2)) _ [] [] _ gets next
  exact taken.trans (puts.trans gets)

/-- A file of four bytes in three buffers, one of them empty. -/
def exampleRead : OpenRead Nat := fun _ count =>
  (.ok (some ⟨[[1, 2, 3], [], [4]], .ok (zBytes "[]")⟩), count + 1)

/-- It is read two bytes at a time. -/
theorem readFile_every_run_example :
    ∃ result, Reads ⟨zBytes "raised from remote", false⟩ ⟨0, fun _ => []⟩ (fun _ => 2)
        (.ok (some ⟨[[1, 2, 3], [], [4]], .ok (zBytes "[]")⟩)) result ∧
      EveryRun (serverLoop ⟨0, fun _ => []⟩
          [(protocolCommandStorageOpenRead, storageRemoteOpenReadProtocol exampleRead)])
        (bufferSpill 8 fun message => message.calls.length)
        (readFile ⟨zBytes "raised from remote", false⟩ ⟨some (zBytes "base/1"), false, none, none⟩
          (fun _ => 2) 5 5) (.ready 7) result (.ready 8) :=
  @readFile_every_run Nat ⟨0, fun _ => []⟩
    [(protocolCommandStorageOpenRead, storageRemoteOpenReadProtocol exampleRead)] exampleRead
    ⟨some (zBytes "base/1"), false, none, none⟩ ⟨zBytes "raised from remote", false⟩
    (bufferSpill 8 fun message => message.calls.length) _ rfl rfl
    ⟨fun bytes same => by cases same; decide, fun bytes same => (by cases same),
      fun bytes same => (by cases same)⟩
    (fun _ => 2) (fun _ => Nat.zero_lt_two) 7
    (Sendable.mk (by decide) fun results same => by cases same; decide) 5 5
    (And.intro (by decide) (by decide))

end File

end RemoteRead
