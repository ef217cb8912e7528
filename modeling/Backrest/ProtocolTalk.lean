import Backrest.Duplex
import Backrest.ProtocolMessage

/-!
# Commands from a client to a server

The client puts a command and waits for its answer; the server takes commands
from its pipe, runs their handlers, and reports an error where a handler has
thrown one, after its retries. Both run at their own pace, and what is put
stays in a buffer until it is flushed or spills over. In any order of their
steps the client gets for each command what its handler would have given it in
the process of the client, and both pipes are empty in the end.
-/

namespace ProtocolTalk

open Text StringId Pack Protocol Duplex

section Error

/-- `errorTypeCode` -/
def errorTypeCode : ErrorType → BitVec 32
  | .assertError => 25
  | .checksumError => 26
  | .fileInvalidError => 28
  | .formatError => 29
  | .optionInvalidError => 31
  | .optionInvalidValueError => 32
  | .optionRequiredError => 37
  | .pathNotEmptyError => 40
  | .fileOpenError => 41
  | .fileReadError => 42
  | .archiveMismatchError => 44
  | .archiveDuplicateError => 45
  | .pathCreateError => 47
  | .pathOpenError => 53
  | .fileMissingError => 55
  | .fileRemoveError => 60
  | .fileWriteError => 64
  | .linkDestinationError => 70
  | .pathMissingError => 73
  | .fileMoveError => 74
  | .backupSetInvalidError => 75
  | .tablespaceMapError => 76
  | .linkMapError => 78
  | .fileCloseError => 79
  | .dbMissingError => 80
  | .dbInvalidError => 81
  | .fileExistsError => 93
  | .cryptoError => 95
  | .jsonFormatError => 99
  | .repoInvalidError => 103
  | .commandError => 104

def protocolErrorCode : BitVec 32 := 39

def strBytes (text : Str) : Bytes := text.map fun c => UInt8.ofNat c.toNat

def thrownOf (error : Text.Error) : Thrown := ⟨errorTypeCode error.type, strBytes error.message⟩

/-- An error between two messages, or one that leaves the rest of a message in the pipe. -/
inductive Failure where
  | thrown (error : Thrown)
  | lost (error : Thrown)
  deriving DecidableEq

abbrev Talk (α : Type) := Proc Message (Except Failure α)

/-- An error ends what a side was doing. -/
def andThen {α β : Type} (talk : Talk α) (next : α → Talk β) : Talk β :=
  talk.bind fun result => match result with
    | .error failure => .done (.error failure)
    | .ok value => next value

theorem andThen_ok {α β : Type} {talk : Talk α} {value : α} {messages rest : List Message}
    (evaluates : talk.eval messages = some (.ok value, rest)) (next : α → Talk β) :
    (andThen talk next).eval messages = (next value).eval rest :=
  Proc.eval_bind evaluates _

theorem andThen_error {α β : Type} {talk : Talk α} {failure : Failure} {messages rest : List Message}
    (evaluates : talk.eval messages = some (.error failure, rest)) (next : α → Talk β) :
    (andThen talk next).eval messages = some (.error failure, rest) :=
  Proc.eval_bind evaluates _

end Error

section Client
variable {α : Type}

def outcome : Except Text.Error (Except Thrown α) → Except Failure α
  | .error error => .error (.lost (thrownOf error))
  | .ok (.error error) => .error (.thrown error)
  | .ok (.ok value) => .ok value

def protocolClientDataGet (this : ProtocolClient) : Talk (Option PackRead) :=
  .get fun message => .done (outcome (message.clientData this))

def protocolClientDataEndGet (this : ProtocolClient) : Talk Unit :=
  .get fun message => .done (outcome (message.clientDataEnd this))

/-- Flush when there is no more data to put. -/
def protocolClientDataPut {α : Type} (data : Option (List Call)) (next : Proc Message α) :
    Proc Message α := .put (.data data) data.isNone next

def protocolClientCommandPut {α : Type} (command : BitVec 64) (param : Option (List Call))
    (next : Proc Message α) : Proc Message α := .put (.command command param) true next

def protocolClientExecute (this : ProtocolClient) (command : BitVec 64)
    (param : Option (List Call)) (resultRequired : Bool) : Talk (Option PackRead) :=
  protocolClientCommandPut command param
    (andThen (if resultRequired then protocolClientDataGet this else .done (.ok none)) fun result =>
      andThen (protocolClientDataEndGet this) fun _ => .done (.ok result))

/-- `STRID5("exit", 0xa27050)` -/
def protocolCommandExit : BitVec 64 := 0xa27050

/-- `STRID5("noop", 0x83dee0)` -/
def protocolCommandNoop : BitVec 64 := 0x83dee0

def protocolClientNoOp (this : ProtocolClient) : Talk Unit :=
  andThen (protocolClientExecute this protocolCommandNoop none false) fun _ => .done (.ok ())

/-- Send an exit command but don't wait to see if it succeeds. -/
def protocolClientFreeResource {α : Type} (next : Proc Message α) : Proc Message α :=
  protocolClientCommandPut protocolCommandExit none next

end Client

section Server
variable {T α : Type}

/-- What `cmdLocal` and `cmdRemote` start a server with, and the text of `errorStackTrace`. -/
structure ProtocolServer where
  retries : Nat := 0
  stackTrace : Thrown → Bytes

def protocolServerError (this : ProtocolServer) (error : Thrown) (next : Proc Message α) :
    Proc Message α := .put (.error error.code error.message (this.stackTrace error)) true next

/-- Flush on NULL result since it might be used to synchronize. -/
def protocolServerDataPut (data : Option (List Call)) (next : Proc Message α) : Proc Message α :=
  .put (.data data) data.isNone next

def protocolServerDataEndPut (next : Proc Message α) : Proc Message α := .put .dataEnd true next

def protocolServerDataGet : Talk (Option PackRead) :=
  .get fun message => .done (outcome (message.serverData.map .ok))

/-- A handler may change the state of the process also where it throws. -/
abbrev Handler (T : Type) := Option PackRead → T → Proc Message (Except Failure Unit × T)

/-- Run the handler again while there are retries remaining. -/
def handlerLoop (handler : Handler T) (param : Option PackRead) :
    Nat → T → Proc Message (Except Failure Unit × T)
  | 0, state => handler param state
  | retries + 1, state => (handler param state).bind fun (result, state) => match result with
    | .error (.thrown _) => handlerLoop handler param retries state
    | other => .done (other, state)

def invalidCommand (id : BitVec 64) : Thrown :=
  match strIdToZN id.toNat with
  | .ok name => ⟨protocolErrorCode, zBytes "invalid command '" ++ (name ++ (zBytes "' (0x" ++
      (strBytes (Nat.toDigits 16 id.toNat) ++ zBytes ")")))⟩
  | .error error => thrownOf error

/-- After a lost error what is left in the pipe is not a message. -/
inductive ServerState (T : Type) where
  | ready (state : T)
  | exited (state : T)
  | lost (state : T)

def handled (this : ProtocolServer) : Except Failure Unit × T → Proc Message (ServerState T)
  | (.ok (), state) => .done (.ready state)
  | (.error (.thrown error), state) => protocolServerError this error (.done (.ready state))
  | (.error (.lost error), state) => protocolServerError this error (.done (.lost state))

def protocolServerProcess (this : ProtocolServer) (handlerList : List (BitVec 64 × Handler T))
    (state : T) (message : Message) : Proc Message (ServerState T) :=
  match message.serverCommand with
  | .error error => protocolServerError this (thrownOf error) (.done (.lost state))
  | .ok (id, param) => match handlerList.find? (·.1 == id) with
    | some (_, handler) =>
      (handlerLoop handler (param.map pckReadNewBuf) this.retries state).bind (handled this)
    | none =>
      if id = protocolCommandExit then .done (.exited state)
      else if id = protocolCommandNoop then protocolServerDataEndPut (.done (.ready state))
      else protocolServerError this (invalidCommand id) (.done (.ready state))

/-- The loop ends with the exit command. -/
def serverLoop (this : ProtocolServer) (handlerList : List (BitVec 64 × Handler T)) :
    ServerState T → Option (Message → Proc Message (ServerState T))
  | .ready state => some (protocolServerProcess this handlerList state)
  | .exited _ => none
  | .lost _ => none

end Server

section Method
variable {T : Type}

/-- What a command does in the process that runs it: it changes the state and gives a result or an
error. -/
structure Method (T : Type) where
  id : BitVec 64
  hasResult : Bool
  run : Option PackRead → T → Except Thrown (Option (List Call)) × T

def Method.respond (method : Method T) :
    Except Thrown (Option (List Call)) × T → Proc Message (Except Failure Unit × T)
  | (.ok result, state) =>
    if method.hasResult then
      protocolServerDataPut result (protocolServerDataEndPut (.done (.ok (), state)))
    else protocolServerDataEndPut (.done (.ok (), state))
  | (.error error, state) => .done (.error (.thrown error), state)

def Method.handler (method : Method T) : BitVec 64 × Handler T :=
  (method.id, fun param state => method.respond (method.run param state))

def Method.call (method : Method T) (param : Option PackRead) :
    Nat → T → Except Thrown (Option (List Call)) × T
  | 0, state => method.run param state
  | retries + 1, state => match method.run param state with
    | (.ok result, state) => (.ok result, state)
    | (.error _, state) => method.call param retries state

structure Command where
  id : BitVec 64
  param : Option (List Call)
  resultRequired : Bool

/-- The result of a command where the methods are run in the process of the caller. -/
def localResult (client : ProtocolClient) (server : ProtocolServer) (methods : List (Method T))
    (command : Command) (state : T) : Except Failure (Option PackRead) × T :=
  let failure (error : Thrown) : Except Failure (Option PackRead) :=
    .error (.thrown (errorText client error.code error.message (server.stackTrace error)))
  match methods.find? (·.id == command.id) with
  | some method =>
    match method.call (command.param.map packReader) server.retries state with
    | (.ok result, state) => (.ok (if method.hasResult then result.map packReader else none), state)
    | (.error error, state) => (failure error, state)
  | none =>
    if command.id = protocolCommandNoop then (.ok none, state)
    else (failure (invalidCommand command.id), state)

def localResults (client : ProtocolClient) (server : ProtocolServer) (methods : List (Method T)) :
    List Command → T → List (Except Failure (Option PackRead)) × T
  | [], state => ([], state)
  | command :: rest, state =>
    let (first, state) := localResult client server methods command state
    let (others, state) := localResults client server methods rest state
    (first :: others, state)

/-- Commands one after another, each with its result or its error. -/
def session (client : ProtocolClient) :
    List Command → Proc Message (List (Except Failure (Option PackRead)))
  | [] => .done []
  | command :: rest =>
    (protocolClientExecute client command.id command.param command.resultRequired).bind fun first =>
      (session client rest).bind fun others => .done (first :: others)

/-- The client asks for a result where the command has one, and ends the server by freeing itself
only. -/
def Command.Fits (methods : List (Method T)) (command : Command) : Prop :=
  match methods.find? (·.id == command.id) with
  | some method => command.resultRequired = method.hasResult
  | none => command.id ≠ protocolCommandExit ∧
    (command.id = protocolCommandNoop → command.resultRequired = false)

end Method

section Session
variable {T : Type} {client : ProtocolClient} {server : ProtocolServer} {methods : List (Method T)}
  {spill : Spill Message}

def response (server : ProtocolServer) (methods : List (Method T)) (command : Command) (state : T) :
    List Message × T :=
  let failure (error : Thrown) : List Message :=
    [.error error.code error.message (server.stackTrace error)]
  match methods.find? (·.id == command.id) with
  | some method =>
    match method.call (command.param.map packReader) server.retries state with
    | (.ok result, state) =>
      (if method.hasResult then [.data result, .dataEnd] else [.dataEnd], state)
    | (.error error, state) => (failure error, state)
  | none =>
    if command.id = protocolCommandNoop then ([.dataEnd], state)
    else (failure (invalidCommand command.id), state)

theorem find_handler (id : BitVec 64) :
    (methods.map Method.handler).find? (·.1 == id)
      = (methods.find? (·.id == id)).map Method.handler := by
  rw [List.find?_map]
  rfl

theorem handlerLoop_handler (method : Method T) (param : Option PackRead) (retries : Nat) :
    ∀ state, handlerLoop method.handler.2 param retries state
      = method.respond (method.call param retries state) := by
  induction retries with
  | zero =>
    intro state
    rfl
  | succ retries ih =>
    intro state
    rw [handlerLoop, Method.call]
    show (method.respond (method.run param state)).bind _ = _
    rcases method.run param state with ⟨result, after⟩
    cases result with
    | error error => exact ih after
    | ok result =>
      unfold Method.respond
      dsimp only
      cases method.hasResult <;> rfl

theorem goes_serverPut_flush {loop : T → Option (Message → Proc Message T)} {α : Type}
    (message : Message) (client : Proc Message α) (next : Proc Message T) :
    Goes loop spill ⟨client, .put message true next, {}, {}⟩ ⟨client, next, {}, { sent := [message] }⟩ := by
  have put := @goes_serverPut _ _ _ loop spill {} {} message true client next
  rw [Queue.put_flush, Queue.all_empty, List.nil_append] at put
  exact put

theorem goes_command {α β : Type}
    {loop : ServerState T → Option (Message → Proc Message (ServerState T))} {id : BitVec 64}
    {param : Option (List Call)} {state : T} {process : Message → Proc Message (ServerState T)}
    (waits : loop (.ready state) = some process) (talk : Talk α)
    (next : Except Failure α → Proc Message β) :
    Goes loop spill ⟨(protocolClientCommandPut id param talk).bind next, .done (.ready state), {}, {}⟩
      ⟨talk.bind next, process (.command id param), {}, {}⟩ := by
  have put := @goes_clientPut _ _ _ loop spill {} {} (.command id param) true (talk.bind next)
    (.done (.ready state))
  rw [Queue.put_flush, Queue.all_empty, List.nil_append] at put
  exact put.trans (goes_serverLoop _ waits)

theorem process_handler {handlers : List (BitVec 64 × Handler T)} {command id : BitVec 64}
    {handler : Handler T} (found : handlers.find? (·.1 == command) = some (id, handler))
    (noRetry : server.retries = 0) (param : Option (List Call)) (state : T) :
    protocolServerProcess server handlers state (.command command param)
      = (handler (param.map packReader) state).bind (handled server) := by
  have same : (param.map fun calls => (packReader calls).rest).map pckReadNewBuf
      = param.map packReader := by
    cases param <;> rfl
  unfold protocolServerProcess
  dsimp only [Message.serverCommand]
  rw [found, noRetry, same]
  rfl

theorem server_responds {α : Type} (command : Command) (state : T) (fits : command.Fits methods)
    (next : Proc Message α) :
    Goes (serverLoop server (methods.map Method.handler)) spill
      ⟨next, protocolServerProcess server (methods.map Method.handler) state
        (.command command.id command.param), {}, {}⟩
      ⟨next, .done (.ready (response server methods command state).2), {},
        { sent := (response server methods command state).1 }⟩ := by
  unfold protocolServerProcess response
  unfold Command.Fits at fits
  dsimp only [Message.serverCommand]
  rw [find_handler]
  cases found : methods.find? (·.id == command.id) with
  | some method =>
    have same : (command.param.map fun calls => (packReader calls).rest).map pckReadNewBuf
        = command.param.map packReader := by
      cases command.param <;> rfl
    dsimp only [Option.map_some]
    show Goes _ _ ⟨next, (handlerLoop method.handler.2 _ _ _).bind _, {}, {}⟩ _
    rw [handlerLoop_handler, same]
    rcases method.call (command.param.map packReader) server.retries state with ⟨result, after⟩
    cases result with
    | error error => exact goes_serverPut_flush _ _ _
    | ok result =>
      unfold Method.respond
      dsimp only
      cases method.hasResult with
      | false => exact goes_serverPut_flush _ _ _
      | true =>
        rw [if_pos rfl, if_pos rfl]
        have first := @goes_serverPut _ _ _ (serverLoop server (methods.map Method.handler)) spill {} {}
          (.data result) result.isNone next (.put .dataEnd true (.done (.ready after)))
        have second := @goes_serverPut _ _ _ (serverLoop server (methods.map Method.handler)) spill {}
          (({} : Queue Message).put spill (.data result) result.isNone) .dataEnd true next
          (.done (.ready after))
        rw [Queue.put_flush, Queue.all_put, Queue.all_empty] at second
        exact first.trans second
  | none =>
    rw [found] at fits
    dsimp only [Option.map_none]
    rw [if_neg fits.1]
    by_cases noop : command.id = protocolCommandNoop
    · rw [if_pos noop, if_pos noop]
      exact goes_serverPut_flush _ _ _
    · rw [if_neg noop, if_neg noop]
      exact goes_serverPut_flush _ _ _

/-- What `protocolClientExecute` does after the command was put. -/
def executeGet (this : ProtocolClient) (resultRequired : Bool) : Talk (Option PackRead) :=
  andThen (if resultRequired then protocolClientDataGet this else .done (.ok none)) fun result =>
    andThen (protocolClientDataEndGet this) fun _ => .done (.ok result)

theorem executeGet_error (resultRequired : Bool) (error : Thrown) :
    (executeGet client resultRequired).eval
        [.error error.code error.message (server.stackTrace error)]
      = some (.error (.thrown (errorText client error.code error.message (server.stackTrace error))),
          []) := by
  cases resultRequired <;> rfl

/-- The client takes the whole answer from the pipe. -/
theorem client_gets (command : Command) (state : T) (fits : command.Fits methods) :
    (executeGet client command.resultRequired).eval (response server methods command state).1
      = some ((localResult client server methods command state).1, []) := by
  unfold response localResult
  unfold Command.Fits at fits
  cases found : methods.find? (·.id == command.id) with
  | some method =>
    rw [found] at fits
    dsimp only at fits ⊢
    rw [fits]
    rcases method.call (command.param.map packReader) server.retries state with ⟨result, after⟩
    cases result with
    | error error => exact executeGet_error _ error
    | ok result =>
      dsimp only
      cases method.hasResult <;> rfl
  | none =>
    rw [found] at fits
    dsimp only at fits ⊢
    by_cases noop : command.id = protocolCommandNoop
    · rw [if_pos noop, if_pos noop, fits.2 noop]
      rfl
    · rw [if_neg noop, if_neg noop]
      exact executeGet_error _ _

theorem response_state (command : Command) (state : T) :
    (response server methods command state).2 = (localResult client server methods command state).2 := by
  unfold response localResult
  cases methods.find? (·.id == command.id) with
  | some method =>
    dsimp only
    rcases method.call (command.param.map packReader) server.retries state with ⟨result, after⟩
    cases result <;> rfl
  | none =>
    dsimp only
    split <;> rfl

theorem execute_answers (command : Command) (state : T) (fits : command.Fits methods) :
    Answers (serverLoop server (methods.map Method.handler)) spill
      (protocolClientExecute client command.id command.param command.resultRequired) (.ready state)
      (localResult client server methods command state).1
      (.ready (localResult client server methods command state).2) := by
  intro U next
  have taken := @goes_command T spill _ _ (serverLoop server (methods.map Method.handler))
    command.id command.param state _ rfl (executeGet client command.resultRequired) next
  have responds := @server_responds T server methods spill _ command state fits
    ((executeGet client command.resultRequired).bind next)
  have gets := @goes_clientEval _ _ _ _ (serverLoop server (methods.map Method.handler)) spill {}
    (executeGet client command.resultRequired)
    (.done (.ready (response server methods command state).2)) _ [] [] _
    (@client_gets T client server methods command state fits) next
  rw [← @response_state T client]
  exact taken.trans (responds.trans gets)

theorem session_answers (commands : List Command) : ∀ (state : T),
    (∀ command ∈ commands, command.Fits methods) →
    Answers (serverLoop server (methods.map Method.handler)) spill (session client commands)
      (.ready state) (localResults client server methods commands state).1
      (.ready (localResults client server methods commands state).2) := by
  induction commands with
  | nil =>
    intro state _
    exact answers_done [] _
  | cons command rest ih =>
    intro state fits
    have first := @execute_answers T client server methods spill command state
      (fits command List.mem_cons_self)
    have others := ih (localResult client server methods command state).2 fun other mem =>
      fits other (List.mem_cons_of_mem command mem)
    exact first.bind (others.bind (answers_done _ _))

/-- A connection: the first noop, the commands and the exit. -/
def connection (client : ProtocolClient) (commands : List Command) :
    Proc Message (List (Except Failure (Option PackRead))) :=
  (protocolClientNoOp client).bind fun _ => (session client commands).bind fun results =>
    protocolClientFreeResource (.done results)

/-- No handler takes the place of a built-in command. -/
def NoBuiltIn (methods : List (Method T)) : Prop :=
  ∀ method ∈ methods, method.id ≠ protocolCommandExit ∧ method.id ≠ protocolCommandNoop

theorem NoBuiltIn.find {id : BitVec 64} (noBuiltIn : NoBuiltIn methods)
    (builtIn : id = protocolCommandExit ∨ id = protocolCommandNoop) :
    methods.find? (·.id == id) = none := by
  rw [List.find?_eq_none]
  intro method mem same
  obtain ⟨noExit, noNoop⟩ := noBuiltIn method mem
  rcases builtIn with rfl | rfl
  · exact noExit (beq_iff_eq.mp same)
  · exact noNoop (beq_iff_eq.mp same)

theorem noOp_answers (noBuiltIn : NoBuiltIn methods) (state : T) :
    Answers (serverLoop server (methods.map Method.handler)) spill (protocolClientNoOp client)
      (.ready state) (.ok ()) (.ready state) := by
  have notFound := noBuiltIn.find (Or.inr rfl)
  have fits : Command.Fits methods ⟨protocolCommandNoop, none, false⟩ := by
    unfold Command.Fits
    rw [notFound]
    exact ⟨by decide, fun _ => rfl⟩
  have isAnswer : localResult client server methods ⟨protocolCommandNoop, none, false⟩ state
      = (.ok none, state) := by
    unfold localResult
    rw [notFound]
    exact if_pos rfl
  have executes := @execute_answers T client server methods spill
    ⟨protocolCommandNoop, none, false⟩ state fits
  rw [isAnswer] at executes
  exact executes.bind (answers_done (Except.ok ()) _)

theorem exit_answers {α : Type} (noBuiltIn : NoBuiltIn methods) (state : T) (result : α) :
    Answers (serverLoop server (methods.map Method.handler)) spill
      (protocolClientFreeResource (.done result)) (.ready state) result (.exited state) := by
  intro U next
  have put := @goes_clientPut _ _ _ (serverLoop server (methods.map Method.handler)) spill {} {}
    (.command protocolCommandExit none) true (next result) (.done (.ready state))
  rw [Queue.put_flush, Queue.all_empty, List.nil_append] at put
  have taken := @goes_serverLoop _ _ _ (serverLoop server (methods.map Method.handler)) spill {}
    (.command protocolCommandExit none) [] [] (next result) (.ready state) _ rfl
  have exits : protocolServerProcess server (methods.map Method.handler) state
      (.command protocolCommandExit none) = .done (.exited state) := by
    unfold protocolServerProcess
    dsimp only [Message.serverCommand]
    rw [find_handler, noBuiltIn.find (Or.inl rfl)]
    exact if_pos rfl
  rw [exits] at taken
  exact put.trans taken

/-- In any order of steps, and whenever the buffers spill over, the connection comes to its end: the
client has for each command what it would have got without the connection, and the state of the
server is the same. -/
theorem connection_every_run (client : ProtocolClient) (server : ProtocolServer) (spill : Spill Message)
    (noBuiltIn : NoBuiltIn methods) (commands : List Command)
    (fits : ∀ command ∈ commands, command.Fits methods) (state : T) :
    EveryRun (serverLoop server (methods.map Method.handler)) spill (connection client commands)
      (.ready state) (localResults client server methods commands state).1
      (.exited (localResults client server methods commands state).2) := by
  have noop := @noOp_answers T client server methods spill noBuiltIn state
  have results := @session_answers T client server methods spill commands state fits
  have exits := @exit_answers T server methods spill _ noBuiltIn
    (localResults client server methods commands state).2
    (localResults client server methods commands state).1
  exact (noop.bind (results.bind exits)).every_run

/-- A counter that is read, and moved unless it is odd. -/
def counterMethods : List (Method Nat) :=
  [⟨7, true, fun _ count => (.ok (some [.scalar .u64 (BitVec.ofNat 64 count) 0 false (0#64)]), count)⟩,
    ⟨9, false, fun _ count =>
      if count % 2 = 1 then (.error ⟨55, zBytes "odd"⟩, count + 1) else (.ok none, count + 4)⟩]

def counterCommands : List Command := [⟨9, none, false⟩, ⟨7, none, true⟩, ⟨8, none, false⟩]

/-- The first command is run twice and the last is not known. -/
theorem connection_every_run_counter :
    EveryRun (serverLoop ⟨1, fun _ => []⟩ (counterMethods.map Method.handler))
      (bufferSpill 16 fun message => message.calls.length)
      (connection ⟨zBytes "raised from remote", false⟩ counterCommands) (.ready 3)
      [.ok none, .ok (some (packReader [.scalar .u64 (8#64) 0 false (0#64)])),
        .error (.thrown (errorText ⟨zBytes "raised from remote", false⟩ (invalidCommand 8).code
          (invalidCommand 8).message []))]
      (.exited 8) :=
  connection_every_run ⟨zBytes "raised from remote", false⟩ ⟨1, fun _ => []⟩
    (bufferSpill 16 fun message => message.calls.length)
    (by
      intro method mem
      rcases List.mem_cons.mp mem with rfl | mem
      · exact ⟨by decide, by decide⟩
      · rcases List.mem_singleton.mp mem with rfl
        exact ⟨by decide, by decide⟩)
    counterCommands
    (by
      intro command mem
      rcases List.mem_cons.mp mem with rfl | mem
      · exact rfl
      · rcases List.mem_cons.mp mem with rfl | mem
        · exact rfl
        · rcases List.mem_singleton.mp mem with rfl
          exact ⟨by decide, fun same => absurd same (by decide)⟩)
    3

end Session

end ProtocolTalk
