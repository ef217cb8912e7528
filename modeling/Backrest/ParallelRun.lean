import Mathlib.Data.Finset.Card
import Mathlib.Data.List.Nodup
import Backrest.Effects
import Backrest.Parallel

/-!
# Jobs handed out by the parallel executor

Every job is in one of two places: at its client, with its command or the answer
to it in that client's pipe, or finished with the answer stored in it. The calls
and the workers' answers keep this from every started executor on.
-/

namespace ParallelRun

open Text Parallel Interleave

variable {Command Data : Type}

/-- A job as it is while its client runs it. -/
def started (key : Str) (command : Command) (clientIdx : Nat) :
    ProtocolParallelJob Command :=
  { key := key, command := command, state := .running, processId := clientIdx + 1 }

def finished (client : ProtocolClient) (answer : Answer)
    (job : ProtocolParallelJob Command) : ProtocolParallelJob Command :=
  { answer.store client job with state := .done }

def Lawful (before : List (Event Command)) : Event Command → Prop
  | .put client job _ =>
    .freed client ∉ before ∧
    (∀ other command, .put client other command ∈ before → .finished client other ∈ before) ∧
    ∀ other command, .put other job command ∉ before
  | .answered client job _ =>
    (∃ command, .put client job command ∈ before) ∧
    ∀ other answer, .answered other job answer ∉ before
  | .finished client job =>
    (∃ answer, .answered client job answer ∈ before) ∧
    ∀ other, .finished other job ∉ before
  | .freed _ => True
  | .returned job =>
    (∃ client, .finished client job ∈ before) ∧ .returned job ∉ before

/-- The pipe of a client that runs a job holds its command or the answer to it. -/
def Pipe (log : List (Event Command)) (worker : Worker Command)
    (clientIdx address : Nat) (command : Command) : Prop :=
  (worker.inbox = [(address, command)] ∧ worker.outbox = [] ∧
    ∀ other answer, .answered other address answer ∉ log) ∨
  (worker.inbox = [] ∧ ∃ answer, worker.outbox = answer.messages ∧
    .answered clientIdx address answer ∈ log)

theorem Pipe.concat {log : List (Event Command)} {worker : Worker Command}
    {clientIdx address : Nat} {command : Command} (h : Pipe log worker clientIdx address command)
    {event : Event Command} (other : ∀ client answer, event ≠ .answered client address answer) :
    Pipe (log ++ [event]) worker clientIdx address command := by
  rcases h with ⟨inbox, outbox, none⟩ | ⟨inbox, answer, outbox, answered⟩
  · refine .inl ⟨inbox, outbox, ?_⟩
    intro client answer mem
    rcases List.mem_append.mp mem with mem | mem
    · exact none client answer mem
    · exact other client answer (List.mem_singleton.mp mem).symm
  · exact .inr ⟨inbox, answer, outbox, List.mem_append_left _ answered⟩

def Exhausted (callbackFunction : Callback Command Data) (data : Data) (clientIdx : Nat) : Prop :=
  ∀ later, Relation.ReflTransGen
      (fun before after => ∃ other, after = (callbackFunction before other).2) data later →
    (callbackFunction later clientIdx).1 = none

theorem Exhausted.step {callbackFunction : Callback Command Data} {data : Data} {clientIdx : Nat}
    (h : Exhausted callbackFunction data clientIdx) (other : Nat) :
    Exhausted callbackFunction (callbackFunction data other).2 clientIdx :=
  fun later reach => h later (.head ⟨other, rfl⟩ reach)

structure Inv (callbackFunction : Callback Command Data)
    (this : ProtocolParallel Command Data) : Prop where
  fds : (this.clientList.map ProtocolClient.fd).Nodup
  lawful : Follows Lawful this.log
  heap_iff : ∀ address, this.heap address ≠ none ↔ address < this.handed
  jobList_nodup : this.jobList.Nodup
  jobList_iff : ∀ address, address ∈ this.jobList ↔
    address < this.handed ∧ .returned address ∉ this.log
  put_heap : ∀ client address command, .put client address command ∈ this.log →
    ∃ job, this.heap address = some job ∧ job.command = command ∧ job.processId = client + 1
  job_place : ∀ address job, this.heap address = some job →
    ∃ clientIdx client, this.clientList[clientIdx]? = some client ∧
      .put clientIdx address job.command ∈ this.log ∧
      (this.clientJobList clientIdx = some address ∧ job.state = .running ∨
        .finished clientIdx address ∈ this.log ∧ ∃ answer,
          .answered clientIdx address answer ∈ this.log ∧
          job = finished client answer (started job.key job.command clientIdx))
  slot : ∀ clientIdx address, this.clientJobList clientIdx = some address →
    ∃ key command, this.heap address = some (started key command clientIdx) ∧
      clientIdx < this.clientList.length ∧ (this.worker clientIdx).alive = true ∧
      (∀ other, .finished other address ∉ this.log) ∧
      Pipe this.log (this.worker clientIdx) clientIdx address command
  idle : ∀ clientIdx, this.clientJobList clientIdx = none →
    (this.worker clientIdx).inbox = [] ∧ (this.worker clientIdx).outbox = []
  freed : ∀ clientIdx, (this.worker clientIdx).alive = false →
    Exhausted callbackFunction this.callbackData clientIdx
  freed_log : ∀ clientIdx, .freed clientIdx ∈ this.log → (this.worker clientIdx).alive = false
  pending : this.state = .pending → ∀ clientIdx, this.clientJobList clientIdx = none
  isOver : this.state = .done → this.jobList = []

section Steps
variable {callbackFunction : Callback Command Data} {this : ProtocolParallel Command Data}

variable {address clientIdx : Nat} {ready : List Int} {command : Command} {answer : Answer}
  {data : Data} {key : Str} {next : ProtocolParallel Command Data}

section Jobs
variable (inv : Inv callbackFunction this)
include inv

theorem Inv.finished_of_put (put : .put clientIdx address command ∈ this.log) :
    this.clientJobList clientIdx = some address ∨ .finished clientIdx address ∈ this.log := by
  obtain ⟨job, atHeap, -, process⟩ := inv.put_heap _ _ _ put
  obtain ⟨other, client, -, putOther, place⟩ := inv.job_place _ _ atHeap
  obtain ⟨job', atHeap', -, process'⟩ := inv.put_heap _ _ _ putOther
  obtain rfl : job = job' := Option.some.inj (atHeap.symm.trans atHeap')
  obtain rfl : other = clientIdx := by omega
  rcases place with ⟨slot, -⟩ | ⟨fin, -⟩
  · exact .inl slot
  · exact .inr fin

theorem Inv.put_of_answered (answered : .answered clientIdx address answer ∈ this.log) :
    ∃ command, .put clientIdx address command ∈ this.log := by
  obtain ⟨before, earlier, ⟨command, put⟩, -⟩ := inv.lawful.of_mem answered
  exact ⟨command, earlier put⟩

theorem Inv.put_of_finished (fin : .finished clientIdx address ∈ this.log) :
    ∃ command, .put clientIdx address command ∈ this.log := by
  obtain ⟨before, earlier, ⟨answer, answered⟩, -⟩ := inv.lawful.of_mem fin
  exact inv.put_of_answered (earlier answered)

theorem Inv.lt_of_put (put : .put clientIdx address command ∈ this.log) :
    address < this.handed := by
  obtain ⟨job, atHeap, -⟩ := inv.put_heap _ _ _ put
  apply (inv.heap_iff address).mp
  simp [atHeap]

theorem Inv.lt_of_answered (answered : .answered clientIdx address answer ∈ this.log) :
    address < this.handed := by
  obtain ⟨command, put⟩ := inv.put_of_answered answered
  exact inv.lt_of_put put

theorem Inv.lt_of_finished
    (fin : .finished clientIdx address ∈ this.log) : address < this.handed := by
  obtain ⟨command, put⟩ := inv.put_of_finished fin
  exact inv.lt_of_put put

theorem Inv.lt_of_returned (returned : .returned address ∈ this.log) : address < this.handed := by
  obtain ⟨before, earlier, ⟨clientIdx, fin⟩, -⟩ := inv.lawful.of_mem returned
  exact inv.lt_of_finished (earlier fin)

theorem Inv.jobDone_iff :
    jobDone this address = true ↔ ∃ clientIdx, .finished clientIdx address ∈ this.log := by
  constructor
  · intro done
    unfold jobDone at done
    split at done
    · rename_i job atHeap
      obtain ⟨clientIdx, client, -, -, ⟨-, running⟩ | ⟨fin, -⟩⟩ := inv.job_place _ _ atHeap
      · rw [running] at done
        exact absurd done (by decide)
      · exact ⟨clientIdx, fin⟩
    · exact absurd done (by decide)
  · rintro ⟨clientIdx, fin⟩
    obtain ⟨command, put⟩ := inv.put_of_finished fin
    obtain ⟨job, atHeap, -, -⟩ := inv.put_heap _ _ _ put
    obtain ⟨other, client, -, -, ⟨slot, -⟩ | ⟨-, answer, -, stored⟩⟩ := inv.job_place _ _ atHeap
    · obtain ⟨-, -, -, -, -, unfinished, -⟩ := inv.slot _ _ slot
      exact absurd fin (unfinished clientIdx)
    · rw [jobDone, atHeap, stored]
      rfl

theorem Inv.slot_inj {one two : Nat}
    (first : this.clientJobList one = some address) (second : this.clientJobList two = some address) :
    one = two := by
  obtain ⟨key, command, atHeap, -⟩ := inv.slot _ _ first
  obtain ⟨key', command', atHeap', -⟩ := inv.slot _ _ second
  have same := Option.some.inj (atHeap.symm.trans atHeap')
  have ids := congrArg ProtocolParallelJob.processId same
  simp only [started] at ids
  omega

end Jobs

/-! ## A client that `select` reported -/

/-- The executor once a client's answer is stored. -/
def finishAt (this : ProtocolParallel Command Data) (clientIdx address : Nat)
    (job : ProtocolParallelJob Command) : ProtocolParallel Command Data :=
  { this with
    heap := Function.update this.heap address (some job)
    clientJobList := Function.update this.clientJobList clientIdx none
    worker := Function.update this.worker clientIdx
      { this.worker clientIdx with outbox := [] }
    log := this.log ++ [.finished clientIdx address] }

theorem clientResultGet_ready (inv : Inv callbackFunction this) {client : ProtocolClient}
    (atList : this.clientList[clientIdx]? = some client)
    (slot : this.clientJobList clientIdx = some address) (isReady : client.fd ∈ ready)
    (readable : (this.worker clientIdx).outbox ≠ []) :
    ∃ key command answer, this.heap address = some (started key command clientIdx) ∧
      .answered clientIdx address answer ∈ this.log ∧ (this.worker clientIdx).inbox = [] ∧
      clientResultGet ready this clientIdx = .ok (finishAt this clientIdx address
        (finished client answer (started key command clientIdx))) := by
  obtain ⟨key, command, atHeap, -, -, -, ⟨-, empty, -⟩ | ⟨taken, answer, sent, answered⟩⟩ :=
    inv.slot _ _ slot
  · exact absurd empty readable
  · refine ⟨key, command, answer, atHeap, answered, taken, ?_⟩
    have running : (answer.store client (started key command clientIdx)).state =
        .running := by cases answer <;> rfl
    rw [clientResultGet]
    simp only [slot, atList, if_pos isReady, atHeap, sent, jobAnswerGet_messages,
      protocolParallelJobStateSet, if_pos running]
    rfl

theorem inv_finishAt (inv : Inv callbackFunction this) {client : ProtocolClient}
    (atList : this.clientList[clientIdx]? = some client)
    (slot : this.clientJobList clientIdx = some address)
    (atHeap : this.heap address = some (started key command clientIdx))
    (answered : .answered clientIdx address answer ∈ this.log)
    (taken : (this.worker clientIdx).inbox = []) :
    Inv callbackFunction (finishAt this clientIdx address
      (finished client answer (started key command clientIdx))) := by
  obtain ⟨-, -, -, inside, alive, unfinished, -⟩ := inv.slot _ _ slot
  have sameCommand : (finished client answer
      (started key command clientIdx : ProtocolParallelJob Command)).command = command := by
    cases answer <;> rfl
  have sameKey : (finished client answer
      (started key command clientIdx : ProtocolParallelJob Command)).key = key := by
    cases answer <;> rfl
  have sameProcess : (finished client answer
      (started key command clientIdx : ProtocolParallelJob Command)).processId =
      clientIdx + 1 := by
    cases answer <;> rfl
  constructor
  case fds => exact inv.fds
  case lawful => exact inv.lawful.concat ⟨⟨answer, answered⟩, unfinished⟩
  case heap_iff =>
    intro other
    have old := inv.heap_iff other
    simp only [finishAt, Function.update_apply]
    split
    · rename_i same
      subst same
      simpa [atHeap] using old
    · exact old
  case jobList_nodup => exact inv.jobList_nodup
  case jobList_iff =>
    intro other
    simp only [finishAt, inv.jobList_iff other, List.mem_append, List.mem_singleton, reduceCtorEq,
      or_false]
  case put_heap =>
    intro other job' command' put
    simp only [finishAt, List.mem_append, List.mem_singleton, reduceCtorEq, or_false] at put
    obtain ⟨job, jobAt, rfl, process⟩ := inv.put_heap _ _ _ put
    simp only [finishAt, Function.update_apply]
    split
    · rename_i same
      subst same
      rw [atHeap] at jobAt
      cases jobAt
      exact ⟨_, rfl, sameCommand, sameProcess.trans process⟩
    · exact ⟨job, jobAt, rfl, process⟩
  case job_place =>
    intro other job jobAt
    simp only [finishAt, Function.update_apply] at jobAt ⊢
    split at jobAt
    · rename_i same
      subst same
      cases jobAt
      obtain ⟨place, -, -, put, -⟩ := inv.job_place _ _ atHeap
      obtain ⟨job, jobAt, -, process⟩ := inv.put_heap _ _ _ put
      rw [atHeap] at jobAt
      cases jobAt
      obtain rfl : clientIdx = place := Nat.succ.inj process
      refine ⟨clientIdx, client, atList, ?_, .inr ⟨by simp, answer, ?_, ?_⟩⟩
      · rw [sameCommand]
        exact List.mem_append_left _ put
      · exact List.mem_append_left _ answered
      · rw [sameKey, sameCommand]
    · rename_i differ
      obtain ⟨place, client', atList', put, stands⟩ := inv.job_place _ _ jobAt
      refine ⟨place, client', atList', List.mem_append_left _ put, ?_⟩
      rcases stands with ⟨atSlot, running⟩ | ⟨fin, answer', answered', stored⟩
      · refine .inl ⟨?_, running⟩
        rw [if_neg ?_]
        · exact atSlot
        · rintro rfl
          exact differ (Option.some.inj (atSlot.symm.trans slot))
      · exact .inr ⟨List.mem_append_left _ fin, answer', List.mem_append_left _ answered', stored⟩
  case slot =>
    intro other job atSlot
    simp only [finishAt, Function.update_apply] at atSlot ⊢
    split at atSlot
    · exact absurd atSlot (by simp)
    · rename_i differ
      have jobDiffer : job ≠ address := by
        rintro rfl
        exact differ (inv.slot_inj atSlot slot)
      obtain ⟨key', command', jobAt, inside', alive', unfinished', pipe⟩ := inv.slot _ _ atSlot
      refine ⟨key', command', ?_, inside', ?_, ?_, ?_⟩
      · rw [if_neg jobDiffer, jobAt]
      · rw [if_neg differ, alive']
      · intro third mem
        rcases List.mem_append.mp mem with mem | mem
        · exact unfinished' third mem
        · simp only [List.mem_singleton, Event.finished.injEq] at mem
          exact jobDiffer mem.2
      · rw [if_neg differ]
        exact pipe.concat (by simp)
  case idle =>
    intro other none
    simp only [finishAt, Function.update_apply] at none ⊢
    split at none
    · rename_i same
      subst same
      simp [taken]
    · rename_i differ
      simpa [differ] using inv.idle other none
  case freed =>
    intro other dead
    simp only [finishAt, Function.update_apply] at dead ⊢
    split at dead
    · rename_i same
      subst same
      exact inv.freed _ dead
    · exact inv.freed _ dead
  case freed_log =>
    intro other dead
    simp only [finishAt, List.mem_append, List.mem_singleton, reduceCtorEq, or_false] at dead
    simp only [finishAt, Function.update_apply]
    split
    · rename_i same
      subst same
      exact inv.freed_log _ dead
    · exact inv.freed_log _ dead
  case pending =>
    intro isPending
    exact absurd (inv.pending isPending clientIdx) (by simp [slot])
  case isOver => exact inv.isOver

/-! ## A client without a job -/

/-- The executor once a client has a new job. -/
def startAt (this : ProtocolParallel Command Data) (clientIdx : Nat) (key : Str)
    (command : Command) (data : Data) : ProtocolParallel Command Data :=
  { this with
    heap := Function.update this.heap this.handed (some (started key command clientIdx))
    handed := this.handed + 1
    jobList := this.jobList ++ [this.handed]
    clientJobList := Function.update this.clientJobList clientIdx (some this.handed)
    worker := Function.update this.worker clientIdx
      { this.worker clientIdx with
        inbox := (this.worker clientIdx).inbox ++ [(this.handed, command)] }
    callbackData := data
    log := this.log ++ [.put clientIdx this.handed command] }

/-- The executor once a client is freed. -/
def freeAt (this : ProtocolParallel Command Data) (clientIdx : Nat) (data : Data) :
    ProtocolParallel Command Data :=
  { this with
    worker := Function.update this.worker clientIdx
      { this.worker clientIdx with alive := false }
    callbackData := data
    log := this.log ++ [.freed clientIdx] }

theorem Inv.heap_handed (inv : Inv callbackFunction this) : this.heap this.handed = none := by
  by_contra present
  exact absurd ((inv.heap_iff _).mp present) (Nat.lt_irrefl _)

theorem inv_startAt (inv : Inv callbackFunction this) (running : this.state = .running)
    (inside : clientIdx < this.clientList.length) (free : this.clientJobList clientIdx = none)
    (next : callbackFunction this.callbackData clientIdx = (some (key, command), data)) :
    Inv callbackFunction (startAt this clientIdx key command data) := by
  have newData : data = (callbackFunction this.callbackData clientIdx).2 := by rw [next]
  have alive : (this.worker clientIdx).alive = true := by
    by_contra dead
    have nothing := inv.freed clientIdx (by simpa using dead) _ .refl
    rw [next] at nothing
    exact absurd nothing (by simp)
  have fresh : ∀ address, address < this.handed → address ≠ this.handed := by
    intro address lt
    omega
  constructor
  case fds => exact inv.fds
  case lawful =>
    refine inv.lawful.concat ⟨?_, ?_, ?_⟩
    · intro dead
      rw [inv.freed_log _ dead] at alive
      exact absurd alive (by decide)
    · intro other command' put
      rcases inv.finished_of_put put with atSlot | fin
      · rw [free] at atSlot
        exact absurd atSlot (by simp)
      · exact fin
    · intro other command' put
      exact absurd (inv.lt_of_put put) (Nat.lt_irrefl _)
  case heap_iff =>
    intro address
    have old := inv.heap_iff address
    simp only [startAt, Function.update_apply]
    split
    · simp only [ne_eq, reduceCtorEq, not_false_eq_true, true_iff]
      omega
    · rw [old]
      omega
  case jobList_nodup =>
    refine inv.jobList_nodup.append (List.nodup_singleton _) ?_
    intro address old new
    obtain rfl : address = this.handed := by simpa using new
    exact absurd ((inv.jobList_iff _).mp old).1 (Nat.lt_irrefl _)
  case jobList_iff =>
    intro address
    have old := inv.jobList_iff address
    simp only [startAt, List.mem_append, List.mem_singleton, reduceCtorEq, or_false, old]
    constructor
    · rintro (⟨lt, notYet⟩ | rfl)
      · exact ⟨by omega, notYet⟩
      · refine ⟨by omega, fun returned => ?_⟩
        exact absurd (inv.lt_of_returned returned) (Nat.lt_irrefl _)
    · rintro ⟨lt, notYet⟩
      by_cases new : address = this.handed
      · exact .inr new
      · exact .inl ⟨by omega, notYet⟩
  case put_heap =>
    intro other address command' put
    simp only [startAt, List.mem_append, List.mem_singleton, Event.put.injEq] at put
    simp only [startAt, Function.update_apply]
    rcases put with put | ⟨rfl, rfl, rfl⟩
    · rw [if_neg (fresh _ (inv.lt_of_put put))]
      exact inv.put_heap _ _ _ put
    · rw [if_pos rfl]
      exact ⟨_, rfl, rfl, rfl⟩
  case job_place =>
    intro address job jobAt
    simp only [startAt, Function.update_apply] at jobAt ⊢
    split at jobAt
    · cases jobAt
      refine ⟨clientIdx, this.clientList.get ⟨clientIdx, inside⟩, ?_, ?_, .inl ⟨?_, rfl⟩⟩
      · exact List.getElem?_eq_getElem inside
      · rename_i same
        exact List.mem_append_right _ (by simp [started, same])
      · rename_i same
        rw [if_pos rfl, same]
    · obtain ⟨place, client, atList, put, stands⟩ := inv.job_place _ _ jobAt
      refine ⟨place, client, atList, List.mem_append_left _ put, ?_⟩
      rcases stands with ⟨atSlot, isRunning⟩ | ⟨fin, answer, answered, stored⟩
      · refine .inl ⟨?_, isRunning⟩
        rw [if_neg ?_]
        · exact atSlot
        · rintro rfl
          exact absurd (atSlot.symm.trans free) (by simp)
      · exact .inr ⟨List.mem_append_left _ fin, answer, List.mem_append_left _ answered, stored⟩
  case slot =>
    intro other address atSlot
    simp only [startAt, Function.update_apply] at atSlot ⊢
    split at atSlot
    · rename_i same
      subst same
      cases atSlot
      obtain ⟨noInbox, noOutbox⟩ := inv.idle _ free
      refine ⟨key, command, if_pos rfl, inside, ?_, ?_, .inl ⟨?_, ?_, ?_⟩⟩
      · rw [if_pos rfl]
        exact alive
      · intro third mem
        rcases List.mem_append.mp mem with mem | mem
        · exact absurd (inv.lt_of_finished mem) (Nat.lt_irrefl _)
        · exact absurd mem (by simp)
      · rw [if_pos rfl, noInbox, List.nil_append]
      · rw [if_pos rfl]
        exact noOutbox
      · intro third answer mem
        rcases List.mem_append.mp mem with mem | mem
        · exact absurd (inv.lt_of_answered mem) (Nat.lt_irrefl _)
        · exact absurd mem (by simp)
    · rename_i differ
      obtain ⟨key', command', jobAt, inside', alive', unfinished', pipe⟩ := inv.slot _ _ atSlot
      have lt : address < this.handed := (inv.heap_iff _).mp (by simp [jobAt])
      refine ⟨key', command', ?_, inside', ?_, ?_, ?_⟩
      · rw [if_neg (fresh _ lt), jobAt]
      · rw [if_neg differ, alive']
      · intro third mem
        rcases List.mem_append.mp mem with mem | mem
        · exact unfinished' third mem
        · exact absurd mem (by simp)
      · rw [if_neg differ]
        exact pipe.concat (by simp)
  case idle =>
    intro other none
    simp only [startAt, Function.update_apply] at none ⊢
    split at none
    · exact absurd none (by simp)
    · rename_i differ
      rw [if_neg differ]
      exact inv.idle other none
  case freed =>
    intro other dead
    simp only [startAt, Function.update_apply] at dead ⊢
    rw [newData]
    split at dead
    · rename_i same
      subst same
      exact (inv.freed _ dead).step _
    · exact (inv.freed _ dead).step _
  case freed_log =>
    intro other dead
    simp only [startAt, List.mem_append, List.mem_singleton, reduceCtorEq, or_false] at dead
    simp only [startAt, Function.update_apply]
    split
    · rename_i same
      subst same
      exact inv.freed_log _ dead
    · exact inv.freed_log _ dead
  case pending =>
    intro isPending
    exact absurd (running.symm.trans isPending) (by decide)
  case isOver =>
    intro isDone
    exact absurd (running.symm.trans isDone) (by decide)

/-- An event that says nothing of a job, and changes at most one worker's `alive`. -/
theorem inv_freeAt (keeps : KeepsNone callbackFunction) (inv : Inv callbackFunction this)
    (next : callbackFunction this.callbackData clientIdx = (none, data))
    (free : this.clientJobList clientIdx = none) :
    Inv callbackFunction (freeAt this clientIdx data) := by
  have newData : data = (callbackFunction this.callbackData clientIdx).2 := by rw [next]
  have pipes : ∀ other, (freeAt this clientIdx data).worker other =
      { this.worker other with
        alive := (this.worker other).alive && decide (other ≠ clientIdx) } := by
    intro other
    simp only [freeAt, Function.update_apply]
    by_cases same : other = clientIdx
    · subst same
      simp
    · simp [same]
  constructor
  case fds => exact inv.fds
  case lawful => exact inv.lawful.concat trivial
  case heap_iff => exact inv.heap_iff
  case jobList_nodup => exact inv.jobList_nodup
  case jobList_iff =>
    intro address
    simp only [freeAt, List.mem_append, List.mem_singleton, reduceCtorEq, or_false]
    exact inv.jobList_iff address
  case put_heap =>
    intro other address command put
    simp only [freeAt, List.mem_append, List.mem_singleton, reduceCtorEq, or_false] at put
    exact inv.put_heap _ _ _ put
  case job_place =>
    intro address job jobAt
    simp only [freeAt, List.mem_append, List.mem_singleton, reduceCtorEq, or_false]
    exact inv.job_place address job jobAt
  case slot =>
    intro other address atSlot
    obtain ⟨key, command, jobAt, inside, alive, unfinished, pipe⟩ := inv.slot _ _ atSlot
    have differ : other ≠ clientIdx := by
      rintro rfl
      exact absurd (atSlot.symm.trans free) (by simp)
    refine ⟨key, command, jobAt, inside, ?_, ?_, ?_⟩
    · rw [pipes]
      simp [alive, differ]
    · simpa [freeAt] using unfinished
    · rw [pipes]
      exact Pipe.concat pipe (by simp)
  case idle =>
    intro other none
    rw [pipes]
    exact inv.idle other none
  case freed =>
    intro other dead
    change Exhausted callbackFunction data other
    rw [newData]
    by_cases same : other = clientIdx
    · subst same
      exact keeps _ _ (by rw [next])
    · rw [pipes] at dead
      exact (inv.freed other (by simpa [same] using dead)).step _
  case freed_log =>
    intro other dead
    rw [pipes]
    rcases List.mem_append.mp dead with dead | dead
    · simp [inv.freed_log _ dead]
    · obtain rfl : other = clientIdx := by simpa using dead
      simp
  case pending => exact inv.pending
  case isOver => exact inv.isOver

/-- A client without a job is given one or freed. -/
theorem clientJobNew_spec (keeps : KeepsNone callbackFunction) (inv : Inv callbackFunction this)
    (running : this.state = .running) (inside : clientIdx < this.clientList.length) :
    ∃ next, clientJobNew callbackFunction this clientIdx = .ok next ∧
      Inv callbackFunction next ∧ next.state = .running ∧ next.clientList = this.clientList ∧
      ∀ address, jobDone next address = jobDone this address := by
  cases slot : this.clientJobList clientIdx with
  | some address =>
    refine ⟨this, ?_, inv, running, rfl, fun _ => rfl⟩
    simp only [clientJobNew, slot]
  | none =>
    rcases asked : callbackFunction this.callbackData clientIdx with ⟨_ | ⟨key, command⟩, data⟩
    · refine ⟨freeAt this clientIdx data, ?_, inv_freeAt keeps inv asked slot, running, rfl,
        fun _ => rfl⟩
      simp only [clientJobNew, slot, asked]
      rfl
    · have alive : (this.worker clientIdx).alive = true := by
        by_contra dead
        have nothing := inv.freed clientIdx (by simpa using dead) _ .refl
        rw [asked] at nothing
        exact absurd nothing (by simp)
      refine ⟨startAt this clientIdx key command data, ?_,
        inv_startAt inv running inside slot asked, running, rfl, ?_⟩
      · simp only [clientJobNew, slot, asked, protocolClientCommandPut, if_pos alive,
          protocolParallelJobStateSet]
        rfl
      · intro address
        simp only [jobDone, startAt, Function.update_apply]
        by_cases new : address = this.handed
        · subst new
          rw [if_pos rfl, inv.heap_handed]
          rfl
        · rw [if_neg new]

/-! ## The other calls and the workers -/

theorem inv_processInit (inv : Inv callbackFunction this) :
    Inv callbackFunction (processInit this) := by
  rw [processInit]
  split
  · rename_i isPending
    have noSlot : this.clientJobList = fun _ => none := funext (inv.pending isPending)
    rw [← noSlot]
    exact { inv with
      pending := fun _ => inv.pending isPending
      isOver := fun isDone => absurd isDone (fun same => JobState.noConfusion same) }
  · exact inv

theorem inv_returned (inv : Inv callbackFunction this) (inList : address ∈ this.jobList)
    (done : jobDone this address = true) :
    Inv callbackFunction { this with
      jobList := this.jobList.erase address
      log := this.log ++ [.returned address] } := by
  have notYet := ((inv.jobList_iff address).mp inList).2
  constructor
  case fds => exact inv.fds
  case lawful => exact inv.lawful.concat ⟨inv.jobDone_iff.mp done, notYet⟩
  case heap_iff => exact inv.heap_iff
  case jobList_nodup => exact inv.jobList_nodup.erase _
  case jobList_iff =>
    intro other
    have old := inv.jobList_iff other
    simp only [inv.jobList_nodup.mem_erase_iff, List.mem_append, List.mem_singleton,
      Event.returned.injEq, old]
    grind
  case put_heap =>
    intro other address' command put
    simp only [List.mem_append, List.mem_singleton, reduceCtorEq, or_false] at put
    exact inv.put_heap _ _ _ put
  case job_place =>
    intro other job jobAt
    simp only [List.mem_append, List.mem_singleton, reduceCtorEq, or_false]
    exact inv.job_place other job jobAt
  case slot =>
    intro other address' atSlot
    obtain ⟨key, command, jobAt, inside, alive, unfinished, pipe⟩ := inv.slot _ _ atSlot
    refine ⟨key, command, jobAt, inside, alive, ?_, pipe.concat (by simp)⟩
    simpa using unfinished
  case idle => exact inv.idle
  case freed => exact inv.freed
  case freed_log =>
    intro other dead
    simp only [List.mem_append, List.mem_singleton, reduceCtorEq, or_false] at dead
    exact inv.freed_log other dead
  case pending => exact inv.pending
  case isOver =>
    intro isDone
    rw [inv.isOver isDone] at inList
    exact absurd inList List.not_mem_nil

theorem inv_answerAt (inv : Inv callbackFunction this)
    (slot : this.clientJobList clientIdx = some address)
    (jobAt : this.heap address = some (started key command clientIdx))
    (inbox : (this.worker clientIdx).inbox = [(address, command)])
    (outbox : (this.worker clientIdx).outbox = [])
    (unanswered : ∀ other answer, .answered other address answer ∉ this.log) :
    Inv callbackFunction { this with
      worker := Function.update this.worker clientIdx
        { this.worker clientIdx with
          inbox := []
          outbox := (this.worker clientIdx).outbox ++ answer.messages }
      log := this.log ++ [.answered clientIdx address answer] } := by
  obtain ⟨place, -, -, put, -⟩ := inv.job_place _ _ jobAt
  obtain rfl : clientIdx = place := by
    obtain ⟨job, jobAt', -, process⟩ := inv.put_heap _ _ _ put
    cases jobAt.symm.trans jobAt'
    exact Nat.succ.inj process
  constructor
  case fds => exact inv.fds
  case lawful => exact inv.lawful.concat ⟨⟨_, put⟩, unanswered⟩
  case heap_iff => exact inv.heap_iff
  case jobList_nodup => exact inv.jobList_nodup
  case jobList_iff =>
    intro other
    simp only [List.mem_append, List.mem_singleton, reduceCtorEq, or_false]
    exact inv.jobList_iff other
  case put_heap =>
    intro other address' command put
    simp only [List.mem_append, List.mem_singleton, reduceCtorEq, or_false] at put
    exact inv.put_heap _ _ _ put
  case job_place =>
    intro other job jobAt
    obtain ⟨place, client, atList, put, stands⟩ := inv.job_place other job jobAt
    refine ⟨place, client, atList, List.mem_append_left _ put, ?_⟩
    refine stands.imp_right ?_
    rintro ⟨fin, answer', answered, stored⟩
    exact ⟨List.mem_append_left _ fin, answer', List.mem_append_left _ answered, stored⟩
  case slot =>
    intro other address' atSlot
    obtain ⟨key', command', jobAt', inside, alive, unfinished, pipe⟩ := inv.slot _ _ atSlot
    refine ⟨key', command', jobAt', inside, ?_, by simpa using unfinished, ?_⟩
    · simp only [Function.update_apply]
      split
      · rename_i same
        exact same ▸ alive
      · exact alive
    · simp only [Function.update_apply]
      split
      · rename_i same
        subst same
        obtain rfl : address' = address := Option.some.inj (atSlot.symm.trans slot)
        exact .inr ⟨rfl, answer, by rw [outbox, List.nil_append], by simp⟩
      · rename_i differ
        apply pipe.concat
        rintro client third same
        cases same
        exact differ (inv.slot_inj atSlot slot)
  case idle =>
    intro other none
    simp only [Function.update_apply]
    split
    · rename_i same
      subst same
      exact absurd (slot.symm.trans none) (by simp)
    · exact inv.idle other none
  case freed =>
    intro other dead
    simp only [Function.update_apply] at dead
    split at dead
    · rename_i same
      subst same
      exact inv.freed _ dead
    · exact inv.freed _ dead
  case freed_log =>
    intro other dead
    simp only [List.mem_append, List.mem_singleton, reduceCtorEq, or_false] at dead
    simp only [Function.update_apply]
    split
    · rename_i same
      subst same
      exact inv.freed_log _ dead
    · exact inv.freed_log _ dead
  case pending => exact inv.pending
  case isOver => exact inv.isOver

theorem inv_workerAnswer (inv : Inv callbackFunction this) (clientIdx : Nat)
    (answer : Answer) : Inv callbackFunction (workerAnswer this clientIdx answer) := by
  cases slot : this.clientJobList clientIdx with
  | none =>
    rw [workerAnswer, (inv.idle _ slot).1]
    exact inv
  | some address =>
    obtain ⟨key, command, jobAt, inside, alive, unfinished,
      ⟨inbox, outbox, unanswered⟩ | ⟨inbox, -⟩⟩ := inv.slot _ _ slot
    · rw [workerAnswer, inbox]
      exact inv_answerAt inv slot jobAt inbox outbox unanswered
    · rw [workerAnswer, inbox]
      exact inv

/-! ## Whole calls -/

def doneSet (this : ProtocolParallel Command Data) : Finset Nat :=
  (Finset.range this.handed).filter fun address => jobDone this address = true

theorem Inv.mem_doneSet (inv : Inv callbackFunction this) :
    address ∈ doneSet this ↔ jobDone this address = true := by
  simp only [doneSet, Finset.mem_filter, Finset.mem_range, and_iff_right_iff_imp]
  intro done
  obtain ⟨clientIdx, fin⟩ := inv.jobDone_iff.mp done
  exact inv.lt_of_finished fin

def fdAt (this : ProtocolParallel Command Data) (clientIdx : Nat) : Option Int :=
  this.clientList[clientIdx]?.map ProtocolClient.fd

/-- The client runs a job and `select` reported it. -/
def reported (this : ProtocolParallel Command Data) (ready : List Int) (clientIdx : Nat) :
    Bool :=
  (this.clientJobList clientIdx).isSome && decide (∃ fd ∈ ready, fdAt this clientIdx = some fd)

/-- The clients that were reported have something in their pipe. -/
def Answered (this : ProtocolParallel Command Data) (ready : List Int)
    (clientIdx : Nat) : Prop :=
  reported this ready clientIdx = true → (this.worker clientIdx).outbox ≠ []

theorem fdAt_inj (inv : Inv callbackFunction this) {one two : Nat} {fd : Int}
    (first : fdAt this one = some fd) (second : fdAt this two = some fd) : one = two := by
  simp only [fdAt, ← List.getElem?_map] at first second
  obtain ⟨inside, -⟩ := List.getElem?_eq_some_iff.mp first
  exact (List.getElem?_inj inside inv.fds).mp (first.trans second.symm)

theorem answered_of_readable (inv : Inv callbackFunction this) (select : Readable this ready)
    (clientIdx : Nat) : Answered this ready clientIdx := by
  intro isReported
  simp only [reported, Bool.and_eq_true, decide_eq_true_eq] at isReported
  obtain ⟨-, fd, mem, atFd⟩ := isReported
  obtain ⟨other, client, address, atList, rfl, -, readable⟩ := select.2 fd mem
  have otherFd : fdAt this other = some client.fd := by rw [fdAt, atList, Option.map_some]
  rw [fdAt_inj inv atFd otherFd]
  exact readable

theorem doneSet_finishAt (inv : Inv callbackFunction this) {clientIdx address : Nat}
    {job : ProtocolParallelJob Command}
    (slot : this.clientJobList clientIdx = some address) (isDone : job.state = .done) :
    address ∉ doneSet this ∧
      doneSet (finishAt this clientIdx address job) = insert address (doneSet this) := by
  obtain ⟨key, command, atHeap, -⟩ := inv.slot _ _ slot
  have lt : address < this.handed := (inv.heap_iff _).mp (by simp [atHeap])
  constructor
  · rw [inv.mem_doneSet, jobDone, atHeap]
    simp [started]
  · ext other
    simp only [doneSet, Finset.mem_insert, Finset.mem_filter, Finset.mem_range]
    by_cases same : other = address
    · subst same
      simp [finishAt, jobDone, lt, isDone]
    · simp [finishAt, jobDone, same]

theorem clientResultGet_spec (inv : Inv callbackFunction this)
    (inside : clientIdx < this.clientList.length) (answered : Answered this ready clientIdx) :
    ∃ next, clientResultGet ready this clientIdx = .ok next ∧ Inv callbackFunction next ∧
      next.state = this.state ∧ next.clientList = this.clientList ∧
      doneSet this ⊆ doneSet next ∧
      (doneSet next).card =
        (doneSet this).card + (if reported this ready clientIdx = true then 1 else 0) ∧
      ∀ other, other ≠ clientIdx → next.clientJobList other = this.clientJobList other ∧
        next.worker other = this.worker other := by
  have atList := List.getElem?_eq_getElem inside
  cases slot : this.clientJobList clientIdx with
  | none =>
    refine ⟨this, ?_, inv, rfl, rfl, Finset.Subset.refl _, ?_, fun _ _ => ⟨rfl, rfl⟩⟩
    · rw [clientResultGet, slot]
    · simp [reported, slot]
  | some address =>
    by_cases isReady : this.clientList[clientIdx].fd ∈ ready
    · have isReported : reported this ready clientIdx = true := by
        simp [reported, slot, fdAt, atList, isReady]
      obtain ⟨key, command, answer, atHeap, sent, taken, call⟩ :=
        clientResultGet_ready inv atList slot isReady (answered isReported)
      obtain ⟨fresh, grown⟩ := @doneSet_finishAt _ _ _ _ inv _ _
        (finished this.clientList[clientIdx] answer (started key command clientIdx))
        slot rfl
      refine ⟨_, call, inv_finishAt inv atList slot atHeap sent taken, rfl, rfl, ?_, ?_, ?_⟩
      · rw [grown]
        exact Finset.subset_insert _ _
      · rw [grown, Finset.card_insert_of_notMem fresh, if_pos isReported]
      · intro other differ
        simp [finishAt, differ]
    · refine ⟨this, ?_, inv, rfl, rfl, Finset.Subset.refl _, ?_, fun _ _ => ⟨rfl, rfl⟩⟩
      · rw [clientResultGet, slot, atList]
        simp only [if_neg isReady]
      · simp [reported, fdAt, atList, isReady]

theorem results_spec {ready : List Int} :
    ∀ (clients : List Nat) (this : ProtocolParallel Command Data),
      Inv callbackFunction this → clients.Nodup →
      (∀ clientIdx ∈ clients, clientIdx < this.clientList.length) →
      (∀ clientIdx ∈ clients, Answered this ready clientIdx) →
      ∃ next, clients.foldlM (clientResultGet ready) this = .ok next ∧
        Inv callbackFunction next ∧ next.state = this.state ∧
        next.clientList = this.clientList ∧ doneSet this ⊆ doneSet next ∧
        (doneSet next).card =
          (doneSet this).card + (clients.filter (reported this ready)).length := by
  intro clients
  induction clients with
  | nil =>
    intro this inv _ _ _
    exact ⟨this, rfl, inv, rfl, rfl, Finset.Subset.refl _, rfl⟩
  | cons clientIdx rest ih =>
    intro this inv nodup inside answered
    obtain ⟨notIn, nodup⟩ := List.nodup_cons.mp nodup
    obtain ⟨middle, call, invMiddle, state, clients, grown, card, frame⟩ :=
      clientResultGet_spec inv (inside _ List.mem_cons_self) (answered _ List.mem_cons_self)
    have same : ∀ other ∈ rest, reported middle ready other = reported this ready other ∧
        middle.worker other = this.worker other := by
      intro other mem
      have differ : other ≠ clientIdx := by
        rintro rfl
        exact notIn mem
      obtain ⟨slots, workers⟩ := frame other differ
      exact ⟨by rw [reported, reported, fdAt, fdAt, slots, clients], workers⟩
    obtain ⟨next, calls, invNext, state', clients', grown', card'⟩ := ih middle invMiddle nodup
      (fun other mem => clients ▸ inside other (List.mem_cons_of_mem _ mem))
      (fun other mem isReported => by
        rw [(same other mem).2]
        exact answered other (List.mem_cons_of_mem _ mem) ((same other mem).1 ▸ isReported))
    refine ⟨next, ?_, invNext, state'.trans state, clients'.trans clients, grown.trans grown', ?_⟩
    · rw [List.foldlM_cons, call]
      exact calls
    · rw [card', card, List.filter_congr (fun other mem => (same other mem).1), List.filter_cons]
      split
      · rw [List.length_cons]
        omega
      · omega

theorem length_reported (inv : Inv callbackFunction this) (select : Readable this ready) :
    ((clientIdxList this).filter (reported this ready)).length = ready.length := by
  have perm : (((clientIdxList this).filter (reported this ready)).map (fdAt this)).Perm
      (ready.map some) := by
    apply (List.perm_ext_iff_of_nodup ?_ ?_).mpr
    · intro fd
      simp only [List.mem_map, List.mem_filter, reported, Bool.and_eq_true, decide_eq_true_eq]
      constructor
      · rintro ⟨clientIdx, ⟨-, -, fd', mem, atFd⟩, rfl⟩
        exact ⟨fd', mem, atFd.symm⟩
      · rintro ⟨fd', mem, rfl⟩
        obtain ⟨clientIdx, client, address, atList, rfl, slot, -⟩ := select.2 fd' mem
        have atFd : fdAt this clientIdx = some client.fd := by rw [fdAt, atList, Option.map_some]
        obtain ⟨inside, -⟩ := List.getElem?_eq_some_iff.mp atList
        exact ⟨clientIdx, ⟨List.mem_range.mpr inside, by simp [slot], _, mem, atFd⟩, atFd⟩
    · refine List.Nodup.map_on ?_ (List.nodup_range.filter _)
      intro one first two second same
      simp only [List.mem_filter, reported, Bool.and_eq_true, decide_eq_true_eq] at first
      obtain ⟨-, -, fd, -, atFd⟩ := first
      exact fdAt_inj inv atFd (same ▸ atFd)
    · exact select.1.map (Option.some_injective _)
  simpa using perm.length_eq

theorem newJobs_spec (keeps : KeepsNone callbackFunction) :
    ∀ (clients : List Nat) (this : ProtocolParallel Command Data),
      Inv callbackFunction this → this.state = .running →
      (∀ clientIdx ∈ clients, clientIdx < this.clientList.length) →
      ∃ next, clients.foldlM (clientJobNew callbackFunction) this = .ok next ∧
        Inv callbackFunction next ∧ next.state = .running ∧
        ∀ address, jobDone next address = jobDone this address := by
  intro clients
  induction clients with
  | nil =>
    intro this inv running _
    exact ⟨this, rfl, inv, running, fun _ => rfl⟩
  | cons clientIdx rest ih =>
    intro this inv running inside
    obtain ⟨middle, call, invMiddle, runningMiddle, clients, same⟩ :=
      clientJobNew_spec keeps inv running (inside _ List.mem_cons_self)
    obtain ⟨next, calls, invNext, runningNext, same'⟩ := ih middle invMiddle runningMiddle
      (fun other mem => clients ▸ inside other (List.mem_cons_of_mem _ mem))
    refine ⟨next, ?_, invNext, runningNext, fun address => (same' address).trans (same address)⟩
    rw [List.foldlM_cons, call]
    exact calls

theorem clientRunningTotal_pos (select : Readable this ready) (some : 0 < ready.length) :
    0 < clientRunningTotal this := by
  obtain ⟨fd, mem⟩ := List.exists_mem_of_length_pos some
  obtain ⟨clientIdx, client, address, atList, -, slot, -⟩ := select.2 fd mem
  obtain ⟨inside, -⟩ := List.getElem?_eq_some_iff.mp atList
  rw [clientRunningTotal, List.length_pos_iff_exists_mem]
  exact ⟨clientIdx, List.mem_filter.mpr ⟨List.mem_range.mpr inside, by simp [slot]⟩⟩

theorem processResult_spec (inv : Inv callbackFunction this) (select : Readable this ready) :
    ∃ next, processResult ready this = .ok (ready.length, next) ∧ Inv callbackFunction next ∧
      next.state = this.state ∧ doneSet this ⊆ doneSet next ∧
      (doneSet next).card = (doneSet this).card + ready.length := by
  by_cases nothing : ready = []
  · subst nothing
    exact ⟨this, by simp [processResult], inv, rfl, Finset.Subset.refl _, rfl⟩
  · have some : 0 < ready.length := List.length_pos_of_ne_nil nothing
    obtain ⟨next, calls, invNext, state, -, grown, card⟩ :=
      @results_spec _ _ callbackFunction ready (clientIdxList this) this inv List.nodup_range
        (fun clientIdx mem => List.mem_range.mp mem)
        (fun clientIdx _ => answered_of_readable inv select clientIdx)
    rw [length_reported inv select] at card
    refine ⟨next, ?_, invNext, state, grown, card⟩
    rw [processResult, if_pos ⟨clientRunningTotal_pos select some, some⟩, calls]

/-- A call returns, and counts the jobs that became done in it. -/
theorem protocolParallelProcess_spec (keeps : KeepsNone callbackFunction)
    (inv : Inv callbackFunction this) (notDone : this.state ≠ .done) (select : Readable this ready) :
    ∃ next, protocolParallelProcess callbackFunction ready this = .ok (ready.length, next) ∧
      Inv callbackFunction next ∧ (doneSet next \ doneSet this).card = ready.length := by
  have selectInit : Readable (processInit this) ready := by
    unfold processInit
    split
    · rename_i isPending
      have noSlot : this.clientJobList = fun _ => none := funext (inv.pending isPending)
      rw [← noSlot]
      exact select
    · exact select
  have running : (processInit this).state = .running := by
    unfold processInit
    cases state : this.state with
    | pending => rfl
    | running => simp [state]
    | done => exact absurd state notDone
  have sameDone : doneSet (processInit this) = doneSet this := by
    unfold processInit
    split <;> rfl
  obtain ⟨middle, call, invMiddle, state, grown, card⟩ :=
    processResult_spec (inv_processInit inv) selectInit
  obtain ⟨next, calls, invNext, -, same⟩ := newJobs_spec keeps (clientIdxList middle) middle
    invMiddle (state.trans running) (fun clientIdx mem => List.mem_range.mp mem)
  have doneNext : doneSet next = doneSet middle := by
    ext address
    rw [invNext.mem_doneSet, invMiddle.mem_doneSet, same]
  refine ⟨next, ?_, invNext, ?_⟩
  · rw [protocolParallelProcess, if_neg notDone, call]
    simp only [calls]
  · rw [doneNext, ← sameDone, Finset.card_sdiff_of_subset grown, card]
    omega

theorem inv_step (keeps : KeepsNone callbackFunction) (inv : Inv callbackFunction this)
    (step : Step callbackFunction this next) :
    Inv callbackFunction next := by
  cases step with
  | process select call =>
    by_cases isDone : this.state = .done
    · rw [protocolParallelProcess, if_pos isDone] at call
      exact absurd call (by simp)
    · obtain ⟨after, call', invAfter, -⟩ := protocolParallelProcess_spec keeps inv isDone select
      rw [call'] at call
      cases call
      exact invAfter
  | result call =>
    unfold protocolParallelResult at call
    split at call
    · exact absurd call (by simp)
    · split at call
      · cases call
        exact inv
      · rename_i address found
        split at call
        · exact absurd call (by simp)
        · cases call
          exact inv_returned inv (List.mem_of_find?_eq_some found) (List.find?_some found)
  | done call =>
    unfold protocolParallelDone at call
    split at call
    · exact absurd call (by simp)
    · split at call
      · rename_i isEmpty
        cases call
        exact { inv with
          pending := fun isPending => absurd isPending (fun same => JobState.noConfusion same)
          isOver := fun _ => isEmpty.2 }
      · cases call
        exact inv
  | answer clientIdx answer => exact inv_workerAnswer inv clientIdx answer

theorem clientAdd_keeps {clientList : List ProtocolClient}
    {start : ProtocolParallel Command Data}
    (adds : clientList.foldlM protocolParallelClientAdd start = .ok this) :
    ∃ clients, this = { start with clientList := clients } := by
  induction clientList generalizing start with
  | nil =>
    cases adds
    exact ⟨_, rfl⟩
  | cons client rest ih =>
    rw [List.foldlM_cons] at adds
    unfold protocolParallelClientAdd at adds
    split at adds
    · exact absurd adds (by intro h; cases h)
    · split at adds
      · exact absurd adds (by intro h; cases h)
      · obtain ⟨clients, same⟩ := ih adds
        exact ⟨clients, same⟩

theorem inv_started (start : Started data this) :
    Inv callbackFunction this := by
  obtain ⟨clientList, adds⟩ := start.clients
  obtain ⟨clients, same⟩ := clientAdd_keeps adds
  have fds := start.fds
  subst same
  exact {
    fds := fds
    lawful := Follows.nil
    heap_iff := fun address => by simp [protocolParallelNew]
    jobList_nodup := List.nodup_nil
    jobList_iff := fun address => by simp [protocolParallelNew]
    put_heap := fun _ _ _ mem => absurd mem List.not_mem_nil
    job_place := fun _ _ atHeap => absurd atHeap (by simp [protocolParallelNew])
    slot := fun _ _ atSlot => absurd atSlot (by simp [protocolParallelNew])
    idle := fun _ _ => ⟨rfl, rfl⟩
    freed := fun _ dead => absurd dead (by simp [protocolParallelNew])
    freed_log := fun _ mem => absurd mem List.not_mem_nil
    pending := fun _ _ => rfl
    isOver := fun _ => rfl }

theorem inv_run {start : ProtocolParallel Command Data}
    (keeps : KeepsNone callbackFunction) (started : Started data start)
    (run : Run callbackFunction start this) : Inv callbackFunction this := by
  induction run with
  | refl => exact inv_started started
  | tail _ step ih => exact inv_step keeps ih step

/-! ## The jobs of the callback -/

/-- The callback, and the jobs it has returned so far. -/
def recorded (callbackFunction : Callback Command Data) :
    Callback Command (Data × List (Str × Command)) :=
  fun data clientIdx =>
    let (job, next) := callbackFunction data.1 clientIdx
    (job, next, data.2 ++ job.toList)

theorem recorded_calls {callbackFunction : Callback Command Data}
    {data later : Data × List (Str × Command)}
    (calls : Relation.ReflTransGen
      (fun before after => ∃ other, after = (recorded callbackFunction before other).2) data later) :
    Relation.ReflTransGen
      (fun before after => ∃ other, after = (callbackFunction before other).2) data.1 later.1 := by
  induction calls with
  | refl => exact .refl
  | tail _ step ih =>
    obtain ⟨other, rfl⟩ := step
    exact ih.tail ⟨other, rfl⟩

theorem recorded_keepsNone {callbackFunction : Callback Command Data}
    (keeps : KeepsNone callbackFunction) : KeepsNone (recorded callbackFunction) :=
  fun data client none _ calls => keeps data.1 client none _ (recorded_calls calls)

section Taken
variable {callbackFunction : Callback Command Data}
  {this next : ProtocolParallel Command (Data × List (Str × Command))}

/-- The jobs of the executor are those the callback has returned. -/
structure Taken (this : ProtocolParallel Command (Data × List (Str × Command))) : Prop where
  total : this.callbackData.2.length = this.handed
  job : ∀ address job, this.heap address = some job →
    this.callbackData.2[address]? = some (job.key, job.command)

theorem jobAnswerGet_job {client : ProtocolClient}
    {job answered : ProtocolParallelJob Command} {pipe rest : List Protocol.Message}
    (get : jobAnswerGet client job pipe = some (answered, rest)) :
    answered.key = job.key ∧ answered.command = job.command := by
  unfold jobAnswerGet at get
  split at get
  · cases get
  · cases get
    exact ⟨rfl, rfl⟩
  · split at get
    · cases get
    · cases get
      exact ⟨rfl, rfl⟩
    · cases get
      exact ⟨rfl, rfl⟩

theorem jobStateSet_job {job set : ProtocolParallelJob Command} {state : JobState}
    (call : protocolParallelJobStateSet job state = .ok set) :
    set.key = job.key ∧ set.command = job.command := by
  unfold protocolParallelJobStateSet at call
  split at call
  · split at call
    · cases call
      exact ⟨rfl, rfl⟩
    · cases call
  · split at call
    · cases call
      exact ⟨rfl, rfl⟩
    · cases call
  · cases call

theorem Taken.resultGet (taken : Taken this) {ready : List Int} {clientIdx : Nat}
    (call : clientResultGet ready this clientIdx = .ok next) : Taken next := by
  unfold clientResultGet at call
  split at call
  · split at call
    · split at call
      · cases call
      · rename_i address _ _ _ _ job atHeap
        split at call
        · cases call
        · rename_i answered rest get
          split at call
          · cases call
          · rename_i done set
            cases call
            refine ⟨taken.total, fun other job' atHeap' => ?_⟩
            simp only [Function.update_apply] at atHeap'
            split at atHeap'
            · rename_i same
              subst same
              cases atHeap'
              obtain ⟨key, command⟩ := jobStateSet_job set
              obtain ⟨key', command'⟩ := jobAnswerGet_job get
              rw [key, command, key', command']
              exact taken.job _ job atHeap
            · exact taken.job other job' atHeap'
    · cases call
      exact taken
  · cases call
    exact taken

theorem Taken.jobNew (taken : Taken this) {clientIdx : Nat}
    (call : clientJobNew (recorded callbackFunction) this clientIdx = .ok next) : Taken next := by
  unfold clientJobNew at call
  split at call
  · cases call
    exact taken
  · split at call
    · rename_i key command data asked
      have isData : data.2 = this.callbackData.2 ++ [(key, command)] := by
        have job := congrArg Prod.fst asked
        have both := congrArg (fun answer => answer.2.2) asked
        simp only [recorded] at job both
        rw [← both, job]
        rfl
      split at call
      · cases call
      · split at call
        · cases call
        · rename_i job set
          cases call
          refine ⟨?_, fun other job' atHeap => ?_⟩
          · simp only [isData, List.length_append, taken.total, List.length_singleton]
          · simp only [Function.update_apply] at atHeap
            simp only [isData]
            split at atHeap
            · rename_i same
              cases atHeap
              obtain ⟨isKey, isCommand⟩ := jobStateSet_job set
              rw [same, ← taken.total, List.getElem?_concat_length, isKey, isCommand]
            · have old := taken.job other job' atHeap
              rw [List.getElem?_append_left (List.getElem?_eq_some_iff.mp old).1]
              exact old
    · rename_i data asked
      have isData : data.2 = this.callbackData.2 := by
        have job := congrArg Prod.fst asked
        have both := congrArg (fun answer => answer.2.2) asked
        simp only [recorded] at job both
        rw [← both, job]
        exact List.append_nil _
      cases call
      refine ⟨?_, fun other job atHeap => ?_⟩
      · simp only [isData, taken.total]
      · simp only [isData]
        exact taken.job other job atHeap

theorem Taken.process (taken : Taken this) {ready : List Int} {completed : Nat}
    (call : protocolParallelProcess (recorded callbackFunction) ready this = .ok (completed, next)) :
    Taken next := by
  have inits : Taken (processInit this) := by
    unfold processInit
    split
    · exact ⟨taken.total, taken.job⟩
    · exact taken
  unfold protocolParallelProcess at call
  split at call
  · cases call
  · split at call
    · cases call
    · rename_i middle results
      have gets : Taken middle := by
        unfold processResult at results
        split at results
        · split at results
          · cases results
          · rename_i last loop
            cases results
            exact Effects.except_foldlM_ok (fun _ _ _ _ taken call => taken.resultGet call) inits loop
        · cases results
          exact inits
      split at call
      · cases call
      · rename_i last loop
        cases call
        exact Effects.except_foldlM_ok (fun _ _ _ _ taken call => taken.jobNew call) gets loop

theorem Taken.step (taken : Taken this) (step : Step (recorded callbackFunction) this next) :
    Taken next := by
  cases step with
  | process _ call => exact taken.process call
  | result call =>
    unfold protocolParallelResult at call
    split at call
    · cases call
    · split at call
      · cases call
        exact taken
      · split at call
        · cases call
        · cases call
          exact ⟨taken.total, taken.job⟩
  | done call =>
    unfold protocolParallelDone at call
    split at call
    · cases call
    · split at call
      · cases call
        exact ⟨taken.total, taken.job⟩
      · cases call
        exact taken
  | answer clientIdx answer =>
    unfold workerAnswer
    split
    · exact taken
    · exact ⟨taken.total, taken.job⟩

theorem taken_run {data : Data}
    {start : ProtocolParallel Command (Data × List (Str × Command))}
    (starts : Started (data, []) start) (run : Run (recorded callbackFunction) start this) :
    Taken this := by
  induction run with
  | refl =>
    obtain ⟨clientList, adds⟩ := starts.clients
    obtain ⟨clients, rfl⟩ := clientAdd_keeps adds
    exact ⟨rfl, fun _ _ atHeap => absurd atHeap (by simp [protocolParallelNew])⟩
  | tail _ step ih => exact ih.step step

end Taken

/-! ## Every job once -/

def SentOnce (this : ProtocolParallel Command (Data × List (Str × Command))) : Prop :=
  (∀ address key command, this.callbackData.2[address]? = some (key, command) →
    ∃ clientIdx job before after, this.heap address = some job ∧ job.key = key ∧
      this.log = before ++ .put clientIdx address command :: after ∧
      (∀ other command', .put other address command' ∉ before ++ after) ∧
      .freed clientIdx ∉ before ∧
      ∀ other command', .put clientIdx other command' ∈ before → .finished clientIdx other ∈ before) ∧
  ∀ clientIdx address command, .put clientIdx address command ∈ this.log →
    ∃ key, this.callbackData.2[address]? = some (key, command)

def AnswerStored (this : ProtocolParallel Command Data) : Prop :=
  ∀ address job, this.heap address = some job → job.state = .done →
    ∃ clientIdx client answer, this.clientList[clientIdx]? = some client ∧
      .put clientIdx address job.command ∈ this.log ∧
      .answered clientIdx address answer ∈ this.log ∧
      job = finished client answer (started job.key job.command clientIdx)

def ReturnedOnce (this : ProtocolParallel Command Data) : Prop :=
  ∀ address, .returned address ∈ this.log → jobDone this address = true ∧
    ∃ before after, this.log = before ++ .returned address :: after ∧
      .returned address ∉ before ∧ .returned address ∉ after

theorem put_once (inv : Inv callbackFunction this) {job : ProtocolParallelJob Command}
    (atHeap : this.heap address = some job) :
    ∃ clientIdx before after, this.log = before ++ .put clientIdx address job.command :: after ∧
      (∀ other command', .put other address command' ∉ before ++ after) ∧
      .freed clientIdx ∉ before ∧
      ∀ other command', .put clientIdx other command' ∈ before →
        .finished clientIdx other ∈ before := by
  obtain ⟨clientIdx, -, -, put, -⟩ := inv.job_place _ _ atHeap
  obtain ⟨before, after, split, notBefore, notAfter⟩ :=
    inv.lawful.once put (fun before rule => rule.2.2 _ _)
  obtain ⟨alive, idle, -⟩ := inv.lawful _ _ _ split
  refine ⟨clientIdx, before, after, split, ?_, alive, idle⟩
  intro other command mem
  have inLog : .put other address command ∈ this.log := by
    rw [split]
    rcases List.mem_append.mp mem with mem | mem
    · exact List.mem_append_left _ mem
    · exact List.mem_append_right _ (List.mem_cons_of_mem _ mem)
  -- the job knows its client and command, so this is the same event
  obtain ⟨job', atHeap', rfl, process'⟩ := inv.put_heap _ _ _ inLog
  obtain ⟨job'', atHeap'', -, process''⟩ := inv.put_heap _ _ _ put
  cases atHeap.symm.trans atHeap'
  cases atHeap.symm.trans atHeap''
  obtain rfl : other = clientIdx := by omega
  rcases List.mem_append.mp mem with mem | mem
  · exact notBefore mem
  · exact notAfter mem

theorem sentOnce {callbackFunction : Callback Command Data}
    {this : ProtocolParallel Command (Data × List (Str × Command))}
    (inv : Inv (recorded callbackFunction) this) (taken : Taken this) : SentOnce this := by
  constructor
  · intro address key command returned
    have lt : address < this.handed := by
      rw [← taken.total]
      exact (List.getElem?_eq_some_iff.mp returned).1
    obtain ⟨job, atHeap⟩ := Option.ne_none_iff_exists'.mp ((inv.heap_iff address).mpr lt)
    have same := returned.symm.trans (taken.job _ _ atHeap)
    cases same
    obtain ⟨clientIdx, before, after, once⟩ := put_once inv atHeap
    exact ⟨clientIdx, job, before, after, atHeap, rfl, once⟩
  · intro clientIdx address command put
    obtain ⟨job, atHeap, rfl, -⟩ := inv.put_heap _ _ _ put
    exact ⟨job.key, taken.job _ _ atHeap⟩

theorem answerStored (inv : Inv callbackFunction this) : AnswerStored this := by
  intro address job atHeap isDone
  obtain ⟨clientIdx, client, atList, put, ⟨-, running⟩ | ⟨-, answer, answered, stored⟩⟩ :=
    inv.job_place _ _ atHeap
  · exact absurd (isDone.symm.trans running) (by decide)
  · exact ⟨clientIdx, client, answer, atList, put, answered, stored⟩

theorem returnedOnce (inv : Inv callbackFunction this) : ReturnedOnce this := by
  intro address returned
  obtain ⟨before, earlier, ⟨clientIdx, fin⟩, -⟩ := inv.lawful.of_mem returned
  refine ⟨inv.jobDone_iff.mpr ⟨clientIdx, earlier fin⟩, ?_⟩
  exact inv.lawful.once returned (fun before rule => rule.2)

/-- `protocolParallelResult` returns a job that is done and was not returned before,
and no job only when there is none. -/
theorem protocolParallelResult_spec (inv : Inv callbackFunction this)
    {result : Option (Nat × ProtocolParallelJob Command)}
    (call : protocolParallelResult this = .ok (result, next)) :
    (result = none → ∀ address, jobDone this address = true → .returned address ∈ this.log) ∧
    ∀ address job, result = some (address, job) → this.heap address = some job ∧
      job.state = .done ∧ .returned address ∉ this.log ∧
      next.log = this.log ++ [.returned address] := by
  unfold protocolParallelResult at call
  split at call
  · exact absurd call (by simp)
  · split at call
    · rename_i none
      cases call
      refine ⟨fun _ address done => ?_, fun _ _ some => absurd some (by simp)⟩
      by_contra notYet
      obtain ⟨clientIdx, fin⟩ := inv.jobDone_iff.mp done
      have inList := (inv.jobList_iff address).mpr ⟨inv.lt_of_finished fin, notYet⟩
      exact List.find?_eq_none.mp none address inList done
    · rename_i found
      split at call
      · exact absurd call (by simp)
      · rename_i atHeap
        cases call
        refine ⟨fun none => absurd none (by simp), ?_⟩
        rintro address' job' same
        cases same
        have done := List.find?_some found
        simp only [jobDone, atHeap, decide_eq_true_eq] at done
        have inList := (inv.jobList_iff _).mp (List.mem_of_find?_eq_some found)
        exact ⟨atHeap, done, inList.2, rfl⟩

theorem protocolParallelDone_spec (inv : Inv callbackFunction this)
    (call : protocolParallelDone this = .ok (true, next)) :
    ∀ address < this.handed, .returned address ∈ this.log := by
  have noJob : this.jobList = [] := by
    unfold protocolParallelDone at call
    split at call
    · exact absurd call (by simp)
    · split at call
      · rename_i isEmpty
        exact isEmpty.2
      · simp only [Except.ok.injEq, Prod.mk.injEq, decide_eq_true_eq] at call
        exact inv.isOver call.1
  intro address lt
  by_contra notYet
  have inList := (inv.jobList_iff address).mpr ⟨lt, notYet⟩
  rw [noJob] at inList
  exact absurd inList List.not_mem_nil

end Steps

/-! A queue of three jobs served to two clients, to its end. -/

def queueCallback : Callback Nat (List Nat)
  | [], _ => (none, [])
  | command :: rest, _ => (some ([], command), rest)

theorem queueCallback_keepsNone : KeepsNone queueCallback := by
  intro data client none
  cases data with
  | cons command rest => exact absurd none (by simp [queueCallback])
  | nil =>
    intro later reach
    have stays : later = [] := by
      induction reach with
      | refl => rfl
      | tail _ step ih =>
        obtain ⟨other, rfl⟩ := step
        rw [ih]
        rfl
    rw [stays]
    rfl

def twoClients : ProtocolParallel Nat (List Nat × List (Str × Nat)) :=
  { clientList := [⟨⟨[], false⟩, 5⟩, ⟨⟨[], false⟩, 6⟩], callbackData := ([7, 8, 9], []) }

theorem twoClients_started : Started ([7, 8, 9], []) twoClients where
  clients := ⟨[⟨⟨[], false⟩, 5⟩, ⟨⟨[], false⟩, 6⟩], rfl⟩
  fds := by decide

end ParallelRun
