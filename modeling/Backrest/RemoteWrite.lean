import Backrest.RemoteRead

/-!
# Writing a file through the protocol

The client puts the file as data without waiting, and the server writes each
buffer as it comes. A null pack completes the file and brings the results of
the filters back; anything but binary data stops it, and the server throws away
what it has written. However the two sides take turns, the server does what the
writer would have done in its own process, in the same order.
-/

namespace RemoteWrite

open Text StringId Pack Duplex ProtocolTalk RemoteRead
open Protocol hiding protocolClientDataGet protocolClientDataEndGet protocolServerDataGet

section Param

structure WriteParam where
  file : Option Bytes
  modeFile : BitVec 32
  modePath : BitVec 32
  user : Option Bytes
  group : Option Bytes
  timeModified : BitVec 64
  createPath : Bool
  syncFile : Bool
  syncPath : Bool
  atomic : Bool
  filter : Option Bytes
  deriving DecidableEq

def WriteParam.calls (param : WriteParam) : List Call :=
  [.str param.file 0 false none, .scalar .mode param.modeFile 0 false (0#32),
    .scalar .mode param.modePath 0 false (0#32), .str param.user 0 false none,
    .str param.group 0 false none, .scalar .time param.timeModified 0 false (0#64),
    .scalar .bool param.createPath 0 false false, .scalar .bool param.syncFile 0 false false,
    .scalar .bool param.syncPath 0 false false, .scalar .bool param.atomic 0 false false,
    .str param.filter 0 false none]

def WriteParam.get (param : PackRead) : Except Text.Error WriteParam := do
  let (file, param) ← pckReadStr param 0 none
  let (modeFile, param) ← pckReadMode param 0 (0#32)
  let (modePath, param) ← pckReadMode param 0 (0#32)
  let (user, param) ← pckReadStr param 0 none
  let (group, param) ← pckReadStr param 0 none
  let (timeModified, param) ← pckReadTime param 0 (0#64)
  let (createPath, param) ← pckReadBool param 0 false
  let (syncFile, param) ← pckReadBool param 0 false
  let (syncPath, param) ← pckReadBool param 0 false
  let (atomic, param) ← pckReadBool param 0 false
  let (filter, _) ← pckReadStr param 0 none
  .ok { file, modeFile, modePath, user, group, timeModified, createPath, syncFile, syncPath, atomic,
        filter }

/-- The texts fit into a pack. -/
structure WriteParam.Fits (param : WriteParam) : Prop where
  file : ∀ bytes ∈ param.file, bytes.length < 2 ^ 64
  user : ∀ bytes ∈ param.user, bytes.length < 2 ^ 64
  group : ∀ bytes ∈ param.group, bytes.length < 2 ^ 64
  filter : ∀ bytes ∈ param.filter, bytes.length < 2 ^ 64

theorem WriteParam.calls_plain {param : WriteParam} (fits : param.Fits) :
    ∀ call ∈ param.calls, Plain call := by
  intro call mem
  unfold WriteParam.calls at mem
  simp only [List.mem_cons, List.not_mem_nil, or_false] at mem
  rcases mem with rfl | rfl | rfl | rfl | rfl | rfl | rfl | rfl | rfl | rfl | rfl
  · exact str_plain fits.file
  · exact scalar_plain .mode _ _ _
  · exact scalar_plain .mode _ _ _
  · exact str_plain fits.user
  · exact str_plain fits.group
  · exact scalar_plain .time _ _ _
  · exact scalar_plain .bool _ _ _
  · exact scalar_plain .bool _ _ _
  · exact scalar_plain .bool _ _ _
  · exact scalar_plain .bool _ _ _
  · exact str_plain fits.filter

theorem WriteParam.get_calls {param : WriteParam} (fits : param.Fits) :
    WriteParam.get (packReader param.calls) = .ok param := by
  obtain ⟨last, reads⟩ := packReader_reads (WriteParam.calls_plain fits) (show 11 < 1000 by decide)
  obtain ⟨p₁, isFile, reads⟩ := readRequests_cons reads
  obtain ⟨p₂, isModeFile, reads⟩ := readRequests_cons reads
  obtain ⟨p₃, isModePath, reads⟩ := readRequests_cons reads
  obtain ⟨p₄, isUser, reads⟩ := readRequests_cons reads
  obtain ⟨p₅, isGroup, reads⟩ := readRequests_cons reads
  obtain ⟨p₆, isTime, reads⟩ := readRequests_cons reads
  obtain ⟨p₇, isCreatePath, reads⟩ := readRequests_cons reads
  obtain ⟨p₈, isSyncFile, reads⟩ := readRequests_cons reads
  obtain ⟨p₉, isSyncPath, reads⟩ := readRequests_cons reads
  obtain ⟨p₁₀, isAtomic, reads⟩ := readRequests_cons reads
  obtain ⟨p₁₁, isFilter, -⟩ := readRequests_cons reads
  have modeFile : pckReadMode p₁ 0 (0#32) = .ok (param.modeFile, p₂) := read_scalar isModeFile
  have modePath : pckReadMode p₂ 0 (0#32) = .ok (param.modePath, p₃) := read_scalar isModePath
  have time : pckReadTime p₅ 0 (0#64) = .ok (param.timeModified, p₆) := read_scalar isTime
  have createPath : pckReadBool p₆ 0 false = .ok (param.createPath, p₇) := read_scalar isCreatePath
  have syncFile : pckReadBool p₇ 0 false = .ok (param.syncFile, p₈) := read_scalar isSyncFile
  have syncPath : pckReadBool p₈ 0 false = .ok (param.syncPath, p₉) := read_scalar isSyncPath
  have atomic : pckReadBool p₉ 0 false = .ok (param.atomic, p₁₀) := read_scalar isAtomic
  unfold WriteParam.get
  rw [read_str isFile]
  dsimp only [bind, Except.bind]
  rw [modeFile]
  dsimp only
  rw [modePath]
  dsimp only
  rw [read_str isUser]
  dsimp only
  rw [read_str isGroup]
  dsimp only
  rw [time]
  dsimp only
  rw [createPath]
  dsimp only
  rw [syncFile]
  dsimp only
  rw [syncPath]
  dsimp only
  rw [atomic]
  dsimp only
  rw [read_str isFilter]

end Param

section Server
variable {T W : Type}

/-- `STRID5("s-ow", 0xbbf730)` -/
def protocolCommandStorageOpenWrite : BitVec 64 := 0xbbf730

/-- The write object of the storage: opened, written to, closed with the results of the filters, or
freed before it was closed. -/
structure Driver (T W : Type) where
  openWrite : WriteParam → T → Except Thrown W × T
  write : W → Bytes → T → Except Thrown W × T
  close : W → T → Except Thrown Bytes × T
  free : W → T → T

inductive Received where
  | complete
  | block (buffer : Bytes)
  | stopped
  deriving DecidableEq

/-- Anything that is not binary means that the write terminated unexpectedly. -/
def blockRead (read : PackRead) : Except Text.Error Received :=
  if pckReadType read = some .bin then do
    .ok (.block ((← pckReadBin read 0).1.getD []))
  else .ok .stopped

def received (read : Option PackRead) : Except Text.Error Received :=
  match read with
  | none => .ok .complete
  | some read => do blockRead (← pckReadNext read).2

def fileClose (driver : Driver T W) (file : W) (state : T) : Proc Message (Except Failure Unit × T) :=
  match driver.close file state with
  | (.error error, state) => .done (.error (.thrown error), state)
  | (.ok results, state) => protocolServerDataPut (some [.str (some results) 0 false none])
      (protocolServerDataEndPut (.done (.ok (), state)))

def freeGot (driver : Driver T W) (file : W) (state : T) :
    Except Failure (Option PackRead) → Proc Message (Except Failure Unit × T)
  | .error failure => .done (.error failure, state)
  | .ok _ => protocolServerDataEndPut (.done (.ok (), driver.free file state))

/-- Free the file when the last pack, which is null, has come too. -/
def fileFree (driver : Driver T W) (file : W) (state : T) : Proc Message (Except Failure Unit × T) :=
  protocolServerDataGet.bind (freeGot driver file state)

def dataGot (driver : Driver T W) (next : W → T → Proc Message (Except Failure Unit × T))
    (file : W) (state : T) :
    Except Failure (Option PackRead) → Proc Message (Except Failure Unit × T)
  | .error failure => .done (.error failure, state)
  | .ok read => match received read with
    | .error error => .done (.error (.thrown (thrownOf error)), state)
    | .ok .complete => fileClose driver file state
    | .ok .stopped => fileFree driver file state
    | .ok (.block buffer) => match driver.write file buffer state with
      | (.error error, state) => .done (.error (.thrown error), state)
      | (.ok file, state) => next file state

/-- Each round gets one message, so that `buffers + 1` rounds are enough. -/
def writeLoop (driver : Driver T W) : Nat → W → T → Proc Message (Except Failure Unit × T)
  | 0, _, state => .done (.ok (), state)
  | rounds + 1, file, state =>
    protocolServerDataGet.bind (dataGot driver (writeLoop driver rounds) file state)

/-- The null pack tells the client that the file is open. -/
def fileOpened (driver : Driver T W) (rounds : Nat) :
    Except Thrown W × T → Proc Message (Except Failure Unit × T)
  | (.error error, state) => .done (.error (.thrown error), state)
  | (.ok file, state) => protocolServerDataPut none (writeLoop driver rounds file state)

def storageRemoteOpenWriteProtocol (driver : Driver T W) (rounds : Nat) : Handler T :=
  fun param state => match param.elim (.error (assertError "param != NULL")) WriteParam.get with
    | .error error => .done (.error (.thrown (thrownOf error)), state)
    | .ok param => fileOpened driver rounds (driver.openWrite param state)

end Server

section Client
variable {α : Type}

def storageWriteRemoteOpen (client : ProtocolClient) (param : WriteParam) : Talk Unit :=
  protocolClientCommandPut protocolCommandStorageOpenWrite (some param.calls)
    (andThen (protocolClientDataGet client) fun _ => .done (.ok ()))

def storageWriteRemote (buffer : Bytes) (next : Talk α) : Talk α :=
  protocolClientDataPut (some [.bin (some buffer) 0]) next

def readResults (response : Option PackRead) : Except Text.Error (Option Bytes) :=
  match response with
  | none => .error (assertError "this != NULL")
  | some response => do .ok (← pckReadStr response 0 none).1

/-- The results of the filters. -/
def resultsGot (client : ProtocolClient) (response : Option PackRead) : Talk (Option Bytes) :=
  match readResults response with
  | .error error => .done (.error (.thrown (thrownOf error)))
  | .ok results => andThen (protocolClientDataEndGet client) fun _ => .done (.ok results)

/-- What the client gets after the last null pack. -/
abbrev closeGets (client : ProtocolClient) : Talk (Option Bytes) :=
  andThen (protocolClientDataGet client) (resultsGot client)

def storageWriteRemoteClose (client : ProtocolClient) : Talk (Option Bytes) :=
  protocolClientDataPut none (closeGets client)

/-- A file that was not closed is stopped by a pack with no binary data. -/
def storageWriteRemoteFreeResource (client : ProtocolClient) : Talk Unit :=
  protocolClientDataPut (some [.scalar .bool false 0 false false])
    (protocolClientDataPut none (protocolClientDataEndGet client))

def writeAll : List Bytes → Talk α → Talk α
  | [], next => next
  | buffer :: rest, next => storageWriteRemote buffer (writeAll rest next)

def writeFile (client : ProtocolClient) (param : WriteParam) (buffers : List Bytes) :
    Talk (Option Bytes) :=
  andThen (storageWriteRemoteOpen client param) fun _ =>
    writeAll buffers (storageWriteRemoteClose client)

/-- Free the file before it is closed. -/
def writePart (client : ProtocolClient) (param : WriteParam) (buffers : List Bytes) : Talk Unit :=
  andThen (storageWriteRemoteOpen client param) fun _ =>
    writeAll buffers (storageWriteRemoteFreeResource client)

end Client

section Receive

theorem received_bin {buffer : Bytes} (fits : buffer.length < 2 ^ 64) :
    received (some (packReader [.bin (some buffer) 0])) = .ok (.block buffer) := by
  have isBlock := readBlock_bin fits
  unfold readBlock at isBlock
  dsimp only at isBlock
  obtain ⟨⟨found, next⟩, isNext, isBlock⟩ := Effects.except_bind_ok isBlock
  unfold blockOf at isBlock
  unfold received
  dsimp only
  rw [isNext]
  dsimp only [bind, Except.bind] at isBlock ⊢
  unfold blockRead
  split at isBlock
  · rename_i isBin
    rw [if_pos isBin]
    obtain ⟨⟨value, last⟩, isValue, same⟩ := Effects.except_bind_ok isBlock
    rw [isValue]
    dsimp only [bind, Except.bind] at same ⊢
    cases same
    rfl
  · obtain ⟨value, -, same⟩ := Effects.except_bind_ok isBlock
    cases same

/-- The default of a bool is not written: there is nothing in the pack to have a type. -/
theorem received_stop :
    received (some (packReader [.scalar .bool false 0 false false])) = .ok .stopped := by
  decide

theorem readResults_str {json : Bytes} (fits : json.length < 2 ^ 64) :
    readResults (some (packReader [.str (some json) 0 false none])) = .ok (some json) := by
  have plain : Plain (.str (some json) 0 false none) := str_plain fun bytes same => by
    cases same
    exact fits
  obtain ⟨after, reads⟩ := packReader_reads (plain_single plain) (show 1 < 1000 by decide)
  obtain ⟨first, read, -⟩ := readRequests_cons reads
  unfold readResults
  dsimp only
  rw [read_str read]
  rfl

end Receive

section File
variable {T W : Type} {client : ProtocolClient} {server : ProtocolServer} {spill : Spill Message}
  {handlers : List (BitVec 64 × Handler T)} {driver : Driver T W} {param : WriteParam}
  {rounds : Nat} {state opened written after : T} {file file' : W} {buffers : List Bytes}

def writeBuffers (driver : Driver T W) : W → List Bytes → T → Except Thrown W × T
  | file, [], state => (.ok file, state)
  | file, buffer :: rest, state => match driver.write file buffer state with
    | (.ok file, state) => writeBuffers driver file rest state
    | (.error error, state) => (.error error, state)

def blockMessages (buffers : List Bytes) : List Message :=
  buffers.map fun block => .data (some [.bin (some block) 0])

theorem writeAll_eq {α : Type} (buffers : List Bytes) (next : Talk α) :
    writeAll buffers next = .puts (blockMessages buffers) next := by
  induction buffers with
  | nil => rfl
  | cons buffer rest ih => exact congrArg (Proc.put (.data (some [.bin (some buffer) 0])) false) ih

theorem server_writes {α : Type} {loop : ServerState T → Option (Message → Proc Message (ServerState T))}
    (next : Proc Message α) (down : Queue Message) (rest : List Message)
    (k : Except Failure Unit × T → Proc Message (ServerState T)) (rounds : Nat) (buffers : List Bytes) :
    ∀ {file : W} {state : T}, (∀ buffer ∈ buffers, buffer.length < 2 ^ 64) →
    writeBuffers driver file buffers state = (.ok file', written) →
    Goes loop spill
      ⟨next, (writeLoop driver (buffers.length + rounds) file state).bind k,
        { sent := blockMessages buffers ++ rest }, down⟩
      ⟨next, (writeLoop driver rounds file' written).bind k, { sent := rest }, down⟩ := by
  induction buffers with
  | nil =>
    intro file state _ writes
    cases writes
    rw [List.length_nil, Nat.zero_add]
    exact Goes.refl _
  | cons buffer others ih =>
    intro file state fits writes
    rw [writeBuffers] at writes
    rcases isWrite : driver.write file buffer state with ⟨result, between⟩
    rw [isWrite] at writes
    cases result with
    | error error => cases writes
    | ok middle =>
      have got := @goes_serverGet _ _ _ loop spill down (.data (some [.bin (some buffer) 0]))
        (blockMessages others ++ rest) [] next fun message =>
          (dataGot driver (writeLoop driver (others.length + rounds)) file state
            (outcome (message.serverData.map .ok))).bind k
      have continues : dataGot driver (writeLoop driver (others.length + rounds)) file state
          (outcome ((Message.data (some [.bin (some buffer) 0])).serverData.map .ok))
          = writeLoop driver (others.length + rounds) middle between := by
        show dataGot driver (writeLoop driver (others.length + rounds)) file state
          (.ok (some (packReader [.bin (some buffer) 0]))) = _
        rw [dataGot, received_bin (fits buffer List.mem_cons_self)]
        dsimp only
        rw [isWrite]
      rw [continues] at got
      have later := ih (fun other mem => fits other (List.mem_cons_of_mem buffer mem)) writes
      rw [List.length_cons, Nat.add_right_comm]
      exact got.trans later

theorem process_openWrite {id : BitVec 64}
    (found : handlers.find? (·.1 == protocolCommandStorageOpenWrite)
      = some (id, storageRemoteOpenWriteProtocol driver rounds))
    (noRetry : server.retries = 0) (fits : param.Fits) (state : T) :
    protocolServerProcess server handlers state
        (.command protocolCommandStorageOpenWrite (some param.calls))
      = (fileOpened driver rounds (driver.openWrite param state)).bind (handled server) := by
  have isParam : (some (packReader param.calls)).elim (.error (assertError "param != NULL"))
      WriteParam.get = .ok param := WriteParam.get_calls fits
  have isHandler : storageRemoteOpenWriteProtocol driver rounds (some (packReader param.calls)) state
      = fileOpened driver rounds (driver.openWrite param state) := by
    unfold storageRemoteOpenWriteProtocol
    rw [isParam]
  rw [process_handler found noRetry, Option.map_some, isHandler]

theorem goes_opened {α β : Type} {id : BitVec 64}
    (found : handlers.find? (·.1 == protocolCommandStorageOpenWrite)
      = some (id, storageRemoteOpenWriteProtocol driver rounds))
    (noRetry : server.retries = 0) (fits : param.Fits)
    (opens : driver.openWrite param state = (.ok file, opened)) (rest : Talk α)
    (next : Except Failure α → Proc Message β) :
    Goes (serverLoop server handlers) spill
      ⟨(andThen (storageWriteRemoteOpen client param) fun _ => rest).bind next, .done (.ready state),
        {}, {}⟩
      ⟨rest.bind next, (writeLoop driver rounds file opened).bind (handled server), {}, {}⟩ := by
  have taken := @goes_command T spill _ _ (serverLoop server handlers) protocolCommandStorageOpenWrite
    (some param.calls) state _ rfl
    (andThen (andThen (protocolClientDataGet client) fun _ => .done (.ok ())) fun _ => rest) next
  rw [process_openWrite found noRetry fits, opens] at taken
  have put := @goes_serverPut _ _ _ (serverLoop server handlers) spill {} {} (.data none) true
    ((andThen (andThen (protocolClientDataGet client) fun _ => .done (.ok ())) fun _ => rest).bind next)
    ((writeLoop driver rounds file opened).bind (handled server))
  rw [Queue.put_flush, Queue.all_empty, List.nil_append] at put
  have gets := @goes_clientGet _ _ _ (serverLoop server handlers) spill {} (.data none) [] []
    (fun message => (andThen (andThen (.done (outcome (message.clientData client))) fun _ =>
      .done (.ok ())) fun _ => rest).bind next)
    ((writeLoop driver rounds file opened).bind (handled server))
  exact taken.trans (put.trans gets)

inductive Stores (client : ProtocolClient) (server : ProtocolServer) (driver : Driver T W)
    (param : WriteParam) (buffers : List Bytes) (state : T) :
    Except Failure (Option Bytes) → T → Prop
  | failed {error : Thrown} {after : T} (opens : driver.openWrite param state = (.error error, after)) :
      Stores client server driver param buffers state
        (.error (.thrown (errorText client error.code error.message (server.stackTrace error)))) after
  | complete {file file' : W} {opened written after : T} {results : Bytes}
      (opens : driver.openWrite param state = (.ok file, opened))
      (writes : writeBuffers driver file buffers opened = (.ok file', written))
      (closes : driver.close file' written = (.ok results, after)) (fits : results.length < 2 ^ 64) :
      Stores client server driver param buffers state (.ok (some results)) after
  | closeFailed {file file' : W} {opened written after : T} {error : Thrown}
      (opens : driver.openWrite param state = (.ok file, opened))
      (writes : writeBuffers driver file buffers opened = (.ok file', written))
      (closes : driver.close file' written = (.error error, after)) :
      Stores client server driver param buffers state
        (.error (.thrown (errorText client error.code error.message (server.stackTrace error)))) after

/-- The server has written the buffers, and what the client has put since is before it. -/
theorem goes_written {α β : Type} {id : BitVec 64} {more : Nat}
    (found : handlers.find? (·.1 == protocolCommandStorageOpenWrite)
      = some (id, storageRemoteOpenWriteProtocol driver (buffers.length + more)))
    (noRetry : server.retries = 0) (fits : param.Fits)
    (small : ∀ buffer ∈ buffers, buffer.length < 2 ^ 64)
    (opens : driver.openWrite param state = (.ok file, opened))
    (writes : writeBuffers driver file buffers opened = (.ok file', written)) {rest : Talk α}
    {next : Except Failure α → Proc Message β} {waits : Proc Message β} {left : List Message}
    {last : Message}
    (puts : rest.bind next = .puts (blockMessages buffers ++ left) (.put last true waits)) :
    Goes (serverLoop server handlers) spill
      ⟨(andThen (storageWriteRemoteOpen client param) fun _ => rest).bind next, .done (.ready state),
        {}, {}⟩
      ⟨waits, (writeLoop driver more file' written).bind (handled server), { sent := left ++ [last] },
        {}⟩ := by
  have begins := @goes_opened T W client server spill handlers driver param _ state opened file α β id
    found noRetry fits opens rest next
  have sent := @goes_clientPuts _ _ _ (serverLoop server handlers) spill {} {}
    (blockMessages buffers ++ left) last waits
    ((writeLoop driver (buffers.length + more) file opened).bind (handled server))
  rw [Queue.all_empty, List.nil_append, List.append_assoc] at sent
  rw [puts] at begins
  exact begins.trans (sent.trans (server_writes waits {} (left ++ [last]) (handled server) more buffers
    small writes))

theorem writeAll_puts {α : Type} (buffers : List Bytes)
    (next : Except Failure (Option Bytes) → Proc Message α) :
    (writeAll buffers (storageWriteRemoteClose client)).bind next
      = .puts (blockMessages buffers) (.put (.data none) true
          ((closeGets client).bind next)) := by
  rw [writeAll_eq, Proc.puts_bind]
  rfl

/-- The server closes the file when all buffers are written. -/
theorem goes_closing {α : Type} {id : BitVec 64}
    (found : handlers.find? (·.1 == protocolCommandStorageOpenWrite)
      = some (id, storageRemoteOpenWriteProtocol driver rounds))
    (noRetry : server.retries = 0) (fits : param.Fits)
    (small : ∀ buffer ∈ buffers, buffer.length < 2 ^ 64) (enough : buffers.length < rounds)
    (opens : driver.openWrite param state = (.ok file, opened))
    (writes : writeBuffers driver file buffers opened = (.ok file', written))
    (next : Except Failure (Option Bytes) → Proc Message α) :
    Goes (serverLoop server handlers) spill
      ⟨(writeFile client param buffers).bind next, .done (.ready state), {}, {}⟩
      ⟨(closeGets client).bind next,
        (fileClose driver file' written).bind (handled server), {}, {}⟩ := by
  obtain ⟨more, rfl⟩ := Nat.exists_eq_add_of_lt enough
  have puts := @writeAll_puts client _ buffers next
  rw [← List.append_nil (blockMessages buffers)] at puts
  have stored := @goes_written T W client server spill handlers driver param state opened written file
    file' buffers _ _ id (more + 1) found noRetry fits small opens writes _ _ _ _ _ puts
  have closed := @goes_serverGet _ _ _ (serverLoop server handlers) spill {} (.data none) [] []
    ((closeGets client).bind next) fun message =>
      (dataGot driver (writeLoop driver more) file' written
        (outcome (message.serverData.map .ok))).bind (handled server)
  exact stored.trans closed

/-- The error of a write comes to the client when it closes the file. What the client has put since
is left to the server, which takes the next of it for a command and is lost. -/
theorem writeFile_failed (client : ProtocolClient) (spill : Spill Message) {id : BitVec 64}
    (found : handlers.find? (·.1 == protocolCommandStorageOpenWrite)
      = some (id, storageRemoteOpenWriteProtocol driver rounds))
    (noRetry : server.retries = 0) (fits : param.Fits) {buffer : Bytes} {rest : List Bytes}
    (small : ∀ block ∈ buffers ++ [buffer], block.length < 2 ^ 64) (enough : buffers.length < rounds)
    (opens : driver.openWrite param state = (.ok file, opened))
    (writes : writeBuffers driver file buffers opened = (.ok file', written)) {error : Thrown}
    (fails : driver.write file' buffer written = (.error error, after)) :
    let lost := thrownOf (checkError "type == protocolMessageTypeCommand")
    ∃ total, ∀ steps pair, Run (TalkStep (serverLoop server handlers) spill) steps
        ⟨writeFile client param (buffers ++ buffer :: rest), .done (.ready state), {}, {}⟩ pair →
      steps ≤ total ∧ Run (TalkStep (serverLoop server handlers) spill) (total - steps) pair
        ⟨.done (.error (.thrown (errorText client error.code error.message (server.stackTrace error)))),
          .done (.lost after), { sent := (blockMessages rest ++ [Message.data none]).tail },
          { sent := [.error lost.code lost.message (server.stackTrace lost)] }⟩ := by
  intro lost
  obtain ⟨more, rfl⟩ := Nat.exists_eq_add_of_lt enough
  have puts : (writeAll (buffers ++ buffer :: rest) (storageWriteRemoteClose client)).bind .done
      = .puts (blockMessages buffers ++ .data (some [.bin (some buffer) 0]) :: blockMessages rest)
          (.put (.data none) true
            ((closeGets client).bind .done)) := by
    rw [writeAll_puts, blockMessages, List.map_append, List.map_cons]
    rfl
  have stored := @goes_written T W client server spill handlers driver param state opened written file
    file' buffers _ _ id (more + 1) found noRetry fits
    (fun block mem => small block (List.mem_append_left _ mem)) opens writes _ _ _ _ _ puts
  have got := @goes_serverGet _ _ _ (serverLoop server handlers) spill {}
    (.data (some [.bin (some buffer) 0])) (blockMessages rest ++ [.data none]) []
    ((closeGets client).bind .done) fun message =>
      (dataGot driver (writeLoop driver more) file' written
        (outcome (message.serverData.map .ok))).bind (handled server)
  have isError : dataGot driver (writeLoop driver more) file' written
      (outcome ((Message.data (some [.bin (some buffer) 0])).serverData.map .ok))
      = .done (.error (.thrown error), after) := by
    show dataGot driver (writeLoop driver more) file' written
      (.ok (some (packReader [.bin (some buffer) 0]))) = _
    rw [dataGot, received_bin (small buffer (List.mem_append_right _ List.mem_cons_self))]
    dsimp only
    rw [fails]
  rw [isError] at got
  have put := @goes_serverPut _ _ _ (serverLoop server handlers) spill
    { sent := blockMessages rest ++ [.data none] } {}
    (.error error.code error.message (server.stackTrace error)) true
    ((closeGets client).bind .done) (.done (.ready after))
  rw [Queue.put_flush, Queue.all_empty, List.nil_append] at put
  -- whatever is left first, it is data
  obtain ⟨data, left, isLeft⟩ : ∃ data left,
      blockMessages rest ++ [.data none] = .data data :: left := by
    cases rest with
    | nil => exact ⟨none, [], rfl⟩
    | cons first others => exact ⟨_, _, rfl⟩
  rw [List.cons_append] at stored
  rw [isLeft] at stored got put ⊢
  have loops := @goes_serverLoop _ _ _ (serverLoop server handlers) spill
    { sent := [.error error.code error.message (server.stackTrace error)] } (.data data) left []
    ((closeGets client).bind .done) (.ready after) _ rfl
  have again := @goes_serverPut _ _ _ (serverLoop server handlers) spill { sent := left }
    { sent := [.error error.code error.message (server.stackTrace error)] }
    (.error lost.code lost.message (server.stackTrace lost)) true
    ((closeGets client).bind .done) (.done (.lost after))
  rw [Queue.put_flush, Queue.all, List.drop_nil, List.append_nil] at again
  have gets := @goes_clientGet _ _ _ (serverLoop server handlers) spill { sent := left }
    (.error error.code error.message (server.stackTrace error))
    [.error lost.code lost.message (server.stackTrace lost)] []
    (fun message => (andThen (.done (outcome (message.clientData client))) (resultsGot client)).bind
      .done) (.done (.lost after))
  have goes := stored.trans (got.trans (put.trans (loops.trans (again.trans gets))))
  rw [Proc.bind_done] at goes
  exact goes.every_run (stuck_done (.inl rfl))

/-- A file that the writer frees before it is closed is freed by the server too. -/
theorem writePart_every_run (client : ProtocolClient) (spill : Spill Message) {id : BitVec 64}
    (found : handlers.find? (·.1 == protocolCommandStorageOpenWrite)
      = some (id, storageRemoteOpenWriteProtocol driver rounds))
    (noRetry : server.retries = 0) (fits : param.Fits)
    (small : ∀ buffer ∈ buffers, buffer.length < 2 ^ 64) (enough : buffers.length < rounds)
    (opens : driver.openWrite param state = (.ok file, opened))
    (writes : writeBuffers driver file buffers opened = (.ok file', written)) :
    EveryRun (serverLoop server handlers) spill (writePart client param buffers) (.ready state) (.ok ())
      (.ready (driver.free file' written)) := by
  apply Answers.every_run
  intro U next
  obtain ⟨more, rfl⟩ := Nat.exists_eq_add_of_lt enough
  have puts : (writeAll buffers (storageWriteRemoteFreeResource client)).bind next
      = .puts (blockMessages buffers ++ [.data (some [.scalar .bool false 0 false false])])
          (.put (.data none) true ((protocolClientDataEndGet client).bind next)) := by
    rw [writeAll_eq, Proc.puts_bind, Proc.puts_append]
    rfl
  have stored := @goes_written T W client server spill handlers driver param state opened written file
    file' buffers _ _ id (more + 1) found noRetry fits small opens writes _ _ _ _ _ puts
  have stopped := @goes_serverGet _ _ _ (serverLoop server handlers) spill {}
    (.data (some [.scalar .bool false 0 false false])) [.data none] []
    ((protocolClientDataEndGet client).bind next) fun message =>
      (dataGot driver (writeLoop driver more) file' written
        (outcome (message.serverData.map .ok))).bind (handled server)
  have isFree : dataGot driver (writeLoop driver more) file' written
      (outcome ((Message.data (some [.scalar .bool false 0 false false])).serverData.map .ok))
      = fileFree driver file' written := by
    show dataGot driver (writeLoop driver more) file' written
      (.ok (some (packReader [.scalar .bool false 0 false false]))) = _
    rw [dataGot, received_stop]
  rw [isFree] at stopped
  have freed := @goes_serverGet _ _ _ (serverLoop server handlers) spill {} (.data none) [] []
    ((protocolClientDataEndGet client).bind next) fun message =>
      (Proc.bind (.done (outcome (message.serverData.map .ok))) (freeGot driver file' written)).bind
        (handled server)
  have ends := @goes_serverPut_flush _ spill (serverLoop server handlers) _ .dataEnd
    ((protocolClientDataEndGet client).bind next) (.done (.ready (driver.free file' written)))
  have gets := @goes_clientGet _ _ _ (serverLoop server handlers) spill {} .dataEnd [] []
    (fun message => (Proc.done (outcome (message.clientDataEnd client))).bind next)
    (.done (.ready (driver.free file' written)))
  exact stored.trans (stopped.trans (freed.trans (ends.trans gets)))

def exampleDriver : Driver (List Bytes) Bytes where
  openWrite _ state := (.ok [], state)
  write file buffer state := (.ok (file ++ buffer), state)
  close file state := (.ok (zBytes "[]"), state ++ [file])
  free _ state := state

def exampleParam : WriteParam :=
  ⟨some (zBytes "base/1"), 0o640#32, 0o750#32, none, none, 0#64, true, true, true, true, none⟩

theorem exampleParam_fits : exampleParam.Fits where
  file bytes same := by cases same; decide
  user bytes same := by cases same
  group bytes same := by cases same
  filter bytes same := by cases same

theorem writePart_every_run_example :
    EveryRun (serverLoop ⟨0, fun _ => []⟩
        [(protocolCommandStorageOpenWrite, storageRemoteOpenWriteProtocol exampleDriver 3)])
      (bufferSpill 8 fun message => message.calls.length)
      (writePart ⟨zBytes "raised from remote", false⟩ exampleParam [[1, 2], [3]]) (.ready [[9]])
      (.ok ()) (.ready [[9]]) :=
  @writePart_every_run (List Bytes) Bytes ⟨0, fun _ => []⟩
    [(protocolCommandStorageOpenWrite, storageRemoteOpenWriteProtocol exampleDriver 3)] exampleDriver
    exampleParam 3 [[9]] [[9]] [[9]] [] [1, 2, 3] [[1, 2], [3]] ⟨zBytes "raised from remote", false⟩
    (bufferSpill 8 fun message => message.calls.length) _ rfl rfl exampleParam_fits (by decide)
    (by decide) rfl rfl

end File

end RemoteWrite
