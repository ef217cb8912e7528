import Mathlib.Logic.Function.Basic
import Mathlib.Logic.Relation
import Backrest.Interleave
import Backrest.ProtocolTalk

/-!
# Protocol parallel executor

The main process hands jobs to clients, each a pipe to one local worker, and
collects what the workers answer. A job is named by its address, the number of
jobs the callback had returned before it; the heap keeps every job ever
returned. What `select` reports and when a worker answers is open.
-/

namespace Parallel

open Text StringId Protocol
open Pack (PackRead)

inductive JobState where
  | pending
  | running
  | done
  deriving DecidableEq

structure ProtocolParallelJob (Command : Type) where
  key : Str
  command : Command
  state : JobState := .pending
  processId : Nat := 0
  code : BitVec 32 := 0
  message : Option Bytes := none
  result : Option PackRead := none
  deriving DecidableEq

/-- Why a call stops. A read from a pipe that stays empty is `blocked`. -/
inductive Halt where
  | assertError (message : Str)
  | blocked
  | freed
  | dangling
  deriving DecidableEq

/-- A client, with the descriptor of `protocolClientIoReadFd`. -/
structure ProtocolClient extends Protocol.ProtocolClient where
  fd : Int

/-! ## Reading an answer -/

section Client
variable {Command : Type}

/-- An error as `CATCH_ANY` sees it. -/
def caught : ProtocolTalk.Failure → Thrown
  | .thrown error => error
  | .lost error => error

def protocolParallelJobResultSet (this : ProtocolParallelJob Command)
    (result : Option PackRead) : ProtocolParallelJob Command :=
  { this with result := result }

def protocolParallelJobErrorSet (this : ProtocolParallelJob Command)
    (error : Thrown) : ProtocolParallelJob Command :=
  { this with code := error.code, message := some error.message }

def protocolParallelJobStateSet (this : ProtocolParallelJob Command) :
    JobState → Except Halt (ProtocolParallelJob Command)
  | .running =>
    if this.state = .pending then .ok { this with state := .running }
    else .error (.assertError "invalid state transition".toList)
  | .done =>
    if this.state = .running then .ok { this with state := .done }
    else .error (.assertError "invalid state transition".toList)
  | .pending => .error (.assertError "invalid state transition".toList)

/-- The `TRY` block that reads a client's answer into its job. `none` waits for a message that
never comes. -/
def jobAnswerGet (client : ProtocolClient) (job : ProtocolParallelJob Command)
    (pipe : List Message) : Option (ProtocolParallelJob Command × List Message) :=
  match (ProtocolTalk.protocolClientDataGet client.toProtocolClient).eval pipe with
  | none => none
  | some (.error failure, rest) => some (protocolParallelJobErrorSet job (caught failure), rest)
  | some (.ok pack, rest) =>
    match (ProtocolTalk.protocolClientDataEndGet client.toProtocolClient).eval rest with
    | none => none
    | some (.error failure, rest) =>
      some (protocolParallelJobErrorSet (protocolParallelJobResultSet job pack) (caught failure), rest)
    | some (.ok (), rest) => some (protocolParallelJobResultSet job pack, rest)

/-- What a worker answers to one command: its result, or an error instead of the
result or of the message that ends it. -/
inductive Answer where
  | result (pack : Option (List Pack.Call))
  | error (code : BitVec 32) (message stack : Bytes)
  | resultError (pack : Option (List Pack.Call)) (code : BitVec 32) (message stack : Bytes)

def Answer.messages : Answer → List Message
  | .result pack => [.data pack, .dataEnd]
  | .error code message stack => [.error code message stack]
  | .resultError pack code message stack => [.data pack, .error code message stack]

def Answer.store (client : ProtocolClient) (job : ProtocolParallelJob Command) :
    Answer → ProtocolParallelJob Command
  | .result pack => { job with result := pack.map packReader }
  | .error code message stack =>
    protocolParallelJobErrorSet job (errorText client.toProtocolClient code message stack)
  | .resultError pack code message stack =>
    protocolParallelJobErrorSet { job with result := pack.map packReader }
      (errorText client.toProtocolClient code message stack)

theorem jobAnswerGet_messages (client : ProtocolClient) (job : ProtocolParallelJob Command)
    (answer : Answer) :
    jobAnswerGet client job answer.messages = some (answer.store client job, []) := by
  cases answer <;> rfl

end Client

/-! ## The executor and its workers -/

/-- What happened, in order. -/
inductive Event (Command : Type) where
  | put (client job : Nat) (command : Command)
  | answered (client job : Nat) (answer : Answer)
  | finished (client job : Nat)
  | freed (client : Nat)
  | returned (job : Nat)

/-- One local process. Each command it was sent stands with the job it is for. -/
structure Worker (Command : Type) where
  inbox : List (Nat × Command) := []
  outbox : List Message := []
  alive : Bool := true

/-- The executor, the workers behind its clients and the callback's data. -/
structure ProtocolParallel (Command Data : Type) where
  clientList : List ProtocolClient
  state : JobState := .pending
  heap : Nat → Option (ProtocolParallelJob Command) := fun _ => none
  handed : Nat := 0
  jobList : List Nat := []
  clientJobList : Nat → Option Nat := fun _ => none
  worker : Nat → Worker Command := fun _ => {}
  callbackData : Data
  log : List (Event Command) := []

/-- `callbackFunction`: a new job for a client, by its key and command, or no job. -/
abbrev Callback (Command Data : Type) := Data → Nat → Option (Str × Command) × Data

variable {Command Data : Type}

def protocolParallelNew (callbackData : Data) : ProtocolParallel Command Data :=
  { clientList := [], callbackData := callbackData }

def protocolParallelClientAdd (this : ProtocolParallel Command Data)
    (client : ProtocolClient) : Except Halt (ProtocolParallel Command Data) :=
  if this.state ≠ .pending then .error (.assertError "state".toList)
  else if client.fd = -1 then
    .error (.assertError "client with read fd is required".toList)
  else .ok { this with clientList := this.clientList ++ [client] }

/-- Get the results of a client that `select` reported. -/
def clientResultGet (ready : List Int) (this : ProtocolParallel Command Data)
    (clientIdx : Nat) : Except Halt (ProtocolParallel Command Data) :=
  match this.clientJobList clientIdx, this.clientList[clientIdx]? with
  | some address, some client =>
    if client.fd ∈ ready then
      match this.heap address with
      | none => .error .dangling
      | some job =>
        match jobAnswerGet client job (this.worker clientIdx).outbox with
        | none => .error .blocked
        | some (answered, rest) =>
          match protocolParallelJobStateSet answered .done with
          | .error halt => .error halt
          | .ok done =>
            .ok { this with
              heap := Function.update this.heap address (some done)
              clientJobList := Function.update this.clientJobList clientIdx none
              worker := Function.update this.worker clientIdx
                { this.worker clientIdx with outbox := rest }
              log := this.log ++ [.finished clientIdx address] }
    else .ok this
  | _, _ => .ok this

/-- `protocolClientCommandPut` on the client of a worker. -/
def protocolClientCommandPut (this : Worker Command) (address : Nat) (command : Command) :
    Except Halt (Worker Command) :=
  if this.alive = true then .ok { this with inbox := this.inbox ++ [(address, command)] }
  else .error .freed

def clientJobNew (callbackFunction : Callback Command Data)
    (this : ProtocolParallel Command Data) (clientIdx : Nat) :
    Except Halt (ProtocolParallel Command Data) :=
  match this.clientJobList clientIdx with
  | some _ => .ok this
  | none =>
    match callbackFunction this.callbackData clientIdx with
    | (some (key, command), data) =>
      match protocolClientCommandPut (this.worker clientIdx) this.handed command with
      | .error halt => .error halt
      | .ok worker =>
        match protocolParallelJobStateSet
            { key := key, command := command, processId := clientIdx + 1 } .running with
        | .error halt => .error halt
        | .ok job =>
          .ok { this with
            heap := Function.update this.heap this.handed (some job)
            handed := this.handed + 1
            jobList := this.jobList ++ [this.handed]
            clientJobList := Function.update this.clientJobList clientIdx (some this.handed)
            worker := Function.update this.worker clientIdx worker
            callbackData := data
            log := this.log ++ [.put clientIdx this.handed command] }
    | (none, data) =>
      .ok { this with
        worker := Function.update this.worker clientIdx
          { this.worker clientIdx with alive := false }
        callbackData := data
        log := this.log ++ [.freed clientIdx] }

def clientIdxList (this : ProtocolParallel Command Data) : List Nat :=
  List.range this.clientList.length

/-- If called for the first time, initialize processing. -/
def processInit (this : ProtocolParallel Command Data) :
    ProtocolParallel Command Data :=
  if this.state = .pending then
    { this with clientJobList := fun _ => none, state := .running }
  else this

def clientRunningTotal (this : ProtocolParallel Command Data) : Nat :=
  ((clientIdxList this).filter fun clientIdx => (this.clientJobList clientIdx).isSome).length

/-- The results `select` reported, and how many it reported. -/
def processResult (ready : List Int) (this : ProtocolParallel Command Data) :
    Except Halt (Nat × ProtocolParallel Command Data) :=
  if 0 < clientRunningTotal this ∧ 0 < ready.length then
    match (clientIdxList this).foldlM (clientResultGet ready) this with
    | .error halt => .error halt
    | .ok this => .ok (ready.length, this)
  else .ok (0, this)

/-- `ready` are the descriptors `select` leaves in the set, none on a timeout. -/
def protocolParallelProcess (callbackFunction : Callback Command Data) (ready : List Int)
    (this : ProtocolParallel Command Data) :
    Except Halt (Nat × ProtocolParallel Command Data) :=
  if this.state = .done then .error (.assertError "state".toList)
  else
    match processResult ready (processInit this) with
    | .error halt => .error halt
    | .ok (result, this) =>
      match (clientIdxList this).foldlM (clientJobNew callbackFunction) this with
      | .error halt => .error halt
      | .ok this => .ok (result, this)

def jobDone (this : ProtocolParallel Command Data) (address : Nat) : Bool :=
  match this.heap address with
  | some job => job.state = .done
  | none => false

/-- The next completed job, with its address. -/
def protocolParallelResult (this : ProtocolParallel Command Data) :
    Except Halt (Option (Nat × ProtocolParallelJob Command) ×
      ProtocolParallel Command Data) :=
  if this.state ≠ .running then .error (.assertError "state".toList)
  else
    match this.jobList.find? (jobDone this) with
    | none => .ok (none, this)
    | some address =>
      match this.heap address with
      | none => .error .dangling
      | some job =>
        .ok (some (address, job),
          { this with
            jobList := this.jobList.erase address
            log := this.log ++ [.returned address] })

def protocolParallelDone (this : ProtocolParallel Command Data) :
    Except Halt (Bool × ProtocolParallel Command Data) :=
  if this.state = .pending then .error (.assertError "state".toList)
  else if this.state ≠ .done ∧ this.jobList = [] then
    .ok (true, { this with state := .done })
  else .ok (this.state = .done, this)

def workerAnswer (this : ProtocolParallel Command Data) (clientIdx : Nat)
    (answer : Answer) : ProtocolParallel Command Data :=
  match (this.worker clientIdx).inbox with
  | [] => this
  | (address, _) :: rest =>
    { this with
      worker := Function.update this.worker clientIdx
        { this.worker clientIdx with
          inbox := rest
          outbox := (this.worker clientIdx).outbox ++ answer.messages }
      log := this.log ++ [.answered clientIdx address answer] }

/-- What `select` may report: readable descriptors of clients that run a job. -/
def Readable (this : ProtocolParallel Command Data) (ready : List Int) : Prop :=
  ready.Nodup ∧ ∀ fd ∈ ready, ∃ clientIdx client address,
    this.clientList[clientIdx]? = some client ∧ client.fd = fd ∧
    this.clientJobList clientIdx = some address ∧ (this.worker clientIdx).outbox ≠ []

/-- A call of the main process that returns, or an answer of a worker. A call that
fails its assertion throws before it changes anything. -/
inductive Step (callbackFunction : Callback Command Data) :
    ProtocolParallel Command Data → ProtocolParallel Command Data → Prop where
  | process {this next : ProtocolParallel Command Data} {ready : List Int} {completed : Nat}
      (select : Readable this ready)
      (call : protocolParallelProcess callbackFunction ready this = .ok (completed, next)) :
      Step callbackFunction this next
  | result {this next : ProtocolParallel Command Data}
      {job : Option (Nat × ProtocolParallelJob Command)}
      (call : protocolParallelResult this = .ok (job, next)) : Step callbackFunction this next
  | done {this next : ProtocolParallel Command Data} {isOver : Bool}
      (call : protocolParallelDone this = .ok (isOver, next)) : Step callbackFunction this next
  | answer (this : ProtocolParallel Command Data) (clientIdx : Nat) (answer : Answer) :
      Step callbackFunction this (workerAnswer this clientIdx answer)

abbrev Run (callbackFunction : Callback Command Data) :
    ProtocolParallel Command Data → ProtocolParallel Command Data → Prop :=
  Relation.ReflTransGen (Step callbackFunction)

/-- A started executor over clients with a descriptor each. -/
structure Started (callbackData : Data)
    (this : ProtocolParallel Command Data) : Prop where
  clients : ∃ clientList : List ProtocolClient,
    clientList.foldlM protocolParallelClientAdd (protocolParallelNew callbackData) = .ok this
  fds : (this.clientList.map ProtocolClient.fd).Nodup

/-- The callback keeps returning no job to a client once it has done so. -/
def KeepsNone (callbackFunction : Callback Command Data) : Prop :=
  ∀ data client, (callbackFunction data client).1 = none →
    ∀ later, Relation.ReflTransGen
        (fun before after => ∃ other, after = (callbackFunction before other).2)
        (callbackFunction data client).2 later →
      (callbackFunction later client).1 = none

end Parallel
