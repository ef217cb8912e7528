import Mathlib.Algebra.GroupWithZero.Nat
import Mathlib.Data.List.Basic
import Mathlib.Tactic.Common

/-!
# Two machines joined by queues

Two machines that take turns in any order put messages into a queue to the
other and get messages from the queue back. A message that is put is held until
the next flush, unless the writer's buffer spills before. Steps of different
machines commute, so that all runs to the end have the same length and the same
last state: what one order of steps does, every order does.
-/

namespace Duplex

section Runs
variable {α : Type} {Step : α → α → Prop}

/-- So many steps lead from one state to another. -/
inductive Run (Step : α → α → Prop) : Nat → α → α → Prop
  | refl (a : α) : Run Step 0 a a
  | head {n : Nat} {a b c : α} (step : Step a b) (run : Run Step n b c) : Run Step (n + 1) a c

/-- Two different steps from one state can be joined by one step each. -/
def Diamond (Step : α → α → Prop) : Prop :=
  ∀ ⦃a b c : α⦄, Step a b → Step a c → b = c ∨ ∃ d, Step b d ∧ Step c d

def Stuck (Step : α → α → Prop) (a : α) : Prop := ∀ b, ¬Step a b

theorem Run.trans {n m : Nat} {a b c : α} (first : Run Step n a b) (second : Run Step m b c) :
    Run Step (n + m) a c := by
  induction first with
  | refl a =>
    rw [Nat.zero_add]
    exact second
  | head step run ih =>
    rw [Nat.succ_add]
    exact Run.head step (ih second)

theorem Run.after_step (diamond : Diamond Step) {n : Nat} {a c last : α} (run : Run Step n a last)
    (stuck : Stuck Step last) (step : Step a c) : ∃ m, n = m + 1 ∧ Run Step m c last := by
  induction run generalizing c with
  | refl a => exact absurd step (stuck c)
  | head first run ih =>
    rcases diamond first step with same | ⟨d, left, right⟩
    · exact ⟨_, rfl, same ▸ run⟩
    · obtain ⟨m, rfl, rest⟩ := ih stuck left
      exact ⟨m + 1, rfl, Run.head right rest⟩

/-- Every run can be continued to the same end, and none is longer. -/
theorem Run.complete (diamond : Diamond Step) {n m : Nat} {a c last : α} (run : Run Step n a last)
    (stuck : Stuck Step last) (other : Run Step m a c) : m ≤ n ∧ Run Step (n - m) c last := by
  induction other generalizing n with
  | refl a => exact ⟨Nat.zero_le n, run⟩
  | head step _ ih =>
    obtain ⟨k, rfl, rest⟩ := run.after_step diamond stuck step
    obtain ⟨less, more⟩ := ih rest
    refine ⟨Nat.succ_le_succ less, ?_⟩
    rw [Nat.succ_sub_succ]
    exact more

end Runs

section Machines
variable {M C S : Type}

inductive Act (M σ : Type) where
  | put (message : M) (flush : Bool) (next : σ)
  | get (next : M → σ)
  | stop

/-- How many of the messages since the last flush have left whole without it. -/
structure Spill (M : Type) where
  count : List M → Nat
  le (since : List M) : count since ≤ since.length
  grows (since : List M) (message : M) : count since ≤ count (since ++ [message])

structure Queue (M : Type) where
  since : List M := []
  sent : List M := []

def Queue.put (spill : Spill M) (queue : Queue M) (message : M) (flush : Bool) : Queue M :=
  let since := queue.since ++ [message]
  if flush then { since := [], sent := queue.sent ++ since.drop (spill.count queue.since) }
  else
    { since, sent := queue.sent ++ (since.take (spill.count since)).drop (spill.count queue.since) }

/-- What has been put and not been got. -/
def Queue.all (spill : Spill M) (queue : Queue M) : List M :=
  queue.sent ++ queue.since.drop (spill.count queue.since)

/-- How many messages are whole in so many bytes. -/
def whole (length : M → Nat) : Nat → List M → Nat
  | _, [] => 0
  | bytes, message :: rest =>
    if length message ≤ bytes then whole length (bytes - length message) rest + 1 else 0

theorem whole_le (length : M → Nat) (since : List M) : ∀ (bytes : Nat),
    whole length bytes since ≤ since.length := by
  induction since with
  | nil =>
    intro bytes
    exact Nat.le_refl 0
  | cons message rest ih =>
    intro bytes
    rw [whole, List.length_cons]
    split
    · exact Nat.succ_le_succ (ih _)
    · omega

theorem whole_mono (length : M → Nat) (since more : List M) : ∀ {bytes bytes' : Nat},
    bytes ≤ bytes' → whole length bytes since ≤ whole length bytes' (since ++ more) := by
  induction since with
  | nil =>
    intro bytes bytes' _
    exact Nat.zero_le _
  | cons message rest ih =>
    intro bytes bytes' less
    rw [List.cons_append, whole, whole]
    by_cases fits : length message ≤ bytes
    · rw [if_pos fits, if_pos (by omega)]
      exact Nat.succ_le_succ (ih (by omega))
    · rw [if_neg fits]
      exact Nat.zero_le _

/-- A buffer that is written whenever it is full. -/
def bufferSpill (size : Nat) (length : M → Nat) : Spill M where
  count since := whole length ((since.map length).sum / size * size) since
  le since := whole_le length since _
  grows since message := by
    apply whole_mono
    apply Nat.mul_le_mul_right
    apply Nat.div_le_div_right
    rw [List.map_append, List.sum_append]
    exact Nat.le_add_right _ _

structure Pair (M C S : Type) where
  client : C
  server : S
  up : Queue M := {}
  down : Queue M := {}

variable (client : C → Act M C) (server : S → Act M S) (spill : Spill M)

inductive Step : Pair M C S → Pair M C S → Prop
  | clientPut {pair : Pair M C S} {message : M} {flush : Bool} {next : C}
    (act : client pair.client = .put message flush next) :
    Step pair { pair with client := next, up := pair.up.put spill message flush }
  | clientGet {pair : Pair M C S} {message : M} {sent : List M} {next : M → C}
    (act : client pair.client = .get next) (arrived : pair.down.sent = message :: sent) :
    Step pair { pair with client := next message, down := { pair.down with sent } }
  | serverPut {pair : Pair M C S} {message : M} {flush : Bool} {next : S}
    (act : server pair.server = .put message flush next) :
    Step pair { pair with server := next, down := pair.down.put spill message flush }
  | serverGet {pair : Pair M C S} {message : M} {sent : List M} {next : M → S}
    (act : server pair.server = .get next) (arrived : pair.up.sent = message :: sent) :
    Step pair { pair with server := next message, up := { pair.up with sent } }

variable {client server spill}

theorem Queue.all_put (queue : Queue M) (message : M) (flush : Bool) :
    (queue.put spill message flush).all spill = queue.all spill ++ [message] := by
  have before := spill.le queue.since
  have after := spill.le (queue.since ++ [message])
  have grows := spill.grows queue.since message
  unfold Queue.put Queue.all
  dsimp only
  by_cases flushed : flush = true
  · rw [if_pos flushed, List.drop_nil, List.append_nil, List.drop_append_of_le_length before,
      List.append_assoc]
  · have splits : (queue.since ++ [message]).drop (spill.count queue.since)
        = ((queue.since ++ [message]).take (spill.count (queue.since ++ [message]))).drop
            (spill.count queue.since)
          ++ (queue.since ++ [message]).drop (spill.count (queue.since ++ [message])) := by
      rw [← List.drop_append_of_le_length (by rw [List.length_take]; omega), List.take_append_drop]
    rw [if_neg flushed, List.append_assoc, ← splits, List.drop_append_of_le_length before,
      List.append_assoc]

theorem Queue.all_empty : ({} : Queue M).all spill = [] := by
  rw [Queue.all, List.drop_nil, List.append_nil]

/-- After a flush nothing is held. -/
theorem Queue.put_flush (queue : Queue M) (message : M) :
    queue.put spill message true = { sent := queue.all spill ++ [message] } := by
  have all := @Queue.all_put M spill queue message true
  unfold Queue.put at all ⊢
  rw [if_pos rfl] at all ⊢
  rw [Queue.all, List.drop_nil, List.append_nil] at all
  dsimp only at all
  rw [all]

/-- A message can be put and the first one got in either order. -/
theorem Queue.put_get {queue : Queue M} {first : M} {sent : List M}
    (arrived : queue.sent = first :: sent) (message : M) (flush : Bool) :
    (queue.put spill message flush).sent
        = first :: (({ queue with sent } : Queue M).put spill message flush).sent := by
  unfold Queue.put
  dsimp only
  split
  · rw [arrived, List.cons_append]
  · rw [arrived, List.cons_append]

theorem put_after_get (queue : Queue M) (sent : List M) (message : M) (flush : Bool) :
    { queue.put spill message flush with
      sent := (({ queue with sent } : Queue M).put spill message flush).sent }
      = ({ queue with sent } : Queue M).put spill message flush := by
  unfold Queue.put
  dsimp only
  split <;> rfl

/-- Steps of the two machines commute. -/
theorem diamond : Diamond (Step client server spill) := by
  intro a b c first second
  cases first with
  | clientPut act =>
    cases second with
    | clientPut act' =>
      rw [act] at act'
      cases act'
      exact Or.inl rfl
    | clientGet act' arrived =>
      rw [act] at act'
      cases act'
    | serverPut act' => exact Or.inr ⟨_, Step.serverPut act', Step.clientPut act⟩
    | serverGet act' arrived =>
      rename_i message flush next first sent next'
      refine Or.inr ⟨_, Step.serverGet act' (Queue.put_get arrived message flush), ?_⟩
      dsimp only
      rw [put_after_get]
      exact @Step.clientPut _ _ _ _ _ _ { a with server := next' first, up := { a.up with sent } } _ _ _ act
  | clientGet act arrived =>
    cases second with
    | clientPut act' =>
      rw [act] at act'
      cases act'
    | clientGet act' arrived' =>
      rw [act] at act'
      rw [arrived] at arrived'
      cases act'
      cases arrived'
      exact Or.inl rfl
    | serverPut act' =>
      rename_i first sent next message flush next'
      refine Or.inr ⟨_, ?_, Step.clientGet act (Queue.put_get arrived message flush)⟩
      dsimp only
      rw [put_after_get]
      exact @Step.serverPut _ _ _ _ _ _
        { a with client := next first, down := { a.down with sent } } _ _ _ act'
    | serverGet act' arrived' => exact Or.inr ⟨_, Step.serverGet act' arrived', Step.clientGet act arrived⟩
  | serverPut act =>
    cases second with
    | clientPut act' => exact Or.inr ⟨_, Step.clientPut act', Step.serverPut act⟩
    | clientGet act' arrived =>
      rename_i message flush next first sent next'
      refine Or.inr ⟨_, Step.clientGet act' (Queue.put_get arrived message flush), ?_⟩
      dsimp only
      rw [put_after_get]
      exact @Step.serverPut _ _ _ _ _ _
        { a with client := next' first, down := { a.down with sent } } _ _ _ act
    | serverPut act' =>
      rw [act] at act'
      cases act'
      exact Or.inl rfl
    | serverGet act' arrived =>
      rw [act] at act'
      cases act'
  | serverGet act arrived =>
    cases second with
    | clientPut act' =>
      rename_i first sent next message flush next'
      refine Or.inr ⟨_, ?_, Step.serverGet act (Queue.put_get arrived message flush)⟩
      dsimp only
      rw [put_after_get]
      exact @Step.clientPut _ _ _ _ _ _ { a with server := next first, up := { a.up with sent } } _ _ _ act'
    | clientGet act' arrived' => exact Or.inr ⟨_, Step.clientGet act' arrived', Step.serverGet act arrived⟩
    | serverPut act' =>
      rw [act] at act'
      cases act'
    | serverGet act' arrived' =>
      rw [act] at act'
      rw [arrived] at arrived'
      cases act'
      cases arrived'
      exact Or.inl rfl

end Machines

section Talk
variable {M R T U : Type}

/-- What one side does until it has a result. -/
inductive Proc (M R : Type) where
  | done (result : R)
  | put (message : M) (flush : Bool) (next : Proc M R)
  | get (next : M → Proc M R)

def Proc.bind : Proc M R → (R → Proc M U) → Proc M U
  | .done result, f => f result
  | .put message flush next, f => .put message flush (next.bind f)
  | .get next, f => .get fun message => (next message).bind f

theorem Proc.bind_assoc (proc : Proc M R) (f : R → Proc M U) (g : U → Proc M T) :
    (proc.bind f).bind g = proc.bind fun result => (f result).bind g := by
  induction proc with
  | done result => rfl
  | put message flush next ih => rw [bind, bind, bind, ih]
  | get next ih =>
    rw [bind, bind, bind]
    congr 1
    funext message
    exact ih message

theorem Proc.bind_done (proc : Proc M R) : proc.bind .done = proc := by
  induction proc with
  | done result => rfl
  | put message flush next ih => rw [bind, ih]
  | get next ih =>
    rw [bind]
    congr 1
    funext message
    exact ih message

/-- Messages that are put without a flush. -/
def Proc.puts : List M → Proc M R → Proc M R
  | [], next => next
  | message :: rest, next => .put message false (puts rest next)

theorem Proc.puts_bind (messages : List M) (next : Proc M R) (f : R → Proc M U) :
    (puts messages next).bind f = puts messages (next.bind f) := by
  induction messages with
  | nil => rfl
  | cons message rest ih => rw [puts, bind, ih, puts]

theorem Proc.puts_append (first second : List M) (next : Proc M R) :
    puts (first ++ second) next = puts first (puts second next) := by
  induction first with
  | nil => rfl
  | cons message rest ih => rw [List.cons_append, puts, ih, puts]

def Proc.eval : Proc M R → List M → Option (R × List M)
  | .done result, messages => some (result, messages)
  | .put _ _ _, _ => none
  | .get _, [] => none
  | .get next, message :: messages => (next message).eval messages

theorem Proc.eval_bind {proc : Proc M R} : ∀ {messages rest : List M} {result : R},
    proc.eval messages = some (result, rest) →
    ∀ f : R → Proc M U, (proc.bind f).eval messages = (f result).eval rest := by
  induction proc with
  | done value =>
    intro messages rest result evaluates f
    cases evaluates
    rfl
  | put message flush next ih =>
    intro messages rest result evaluates f
    rw [eval] at evaluates
    cases evaluates
  | get next ih =>
    intro messages rest result evaluates f
    cases messages with
    | nil => cases evaluates
    | cons message messages =>
      rw [eval] at evaluates
      rw [bind, eval]
      exact ih message evaluates f

def clientAct : Proc M R → Act M (Proc M R)
  | .done _ => .stop
  | .put message flush next => .put message flush next
  | .get next => .get next

/-- A server that is done with one message waits for the next, unless it has ended. -/
def serverAct (loop : T → Option (M → Proc M T)) : Proc M T → Act M (Proc M T)
  | .done state => match loop state with
    | none => .stop
    | some next => .get next
  | .put message flush next => .put message flush next
  | .get next => .get next

variable (loop : T → Option (M → Proc M T)) (spill : Spill M)

abbrev TalkStep : Pair M (Proc M R) (Proc M T) → Pair M (Proc M R) (Proc M T) → Prop :=
  Step clientAct (serverAct loop) spill

/-- Some run leads from one state to the other. -/
def Goes (first last : Pair M (Proc M R) (Proc M T)) : Prop :=
  ∃ n, Run (TalkStep loop spill) n first last

variable {loop spill}

theorem Goes.refl (pair : Pair M (Proc M R) (Proc M T)) : Goes loop spill pair pair :=
  ⟨0, Run.refl pair⟩

theorem Goes.trans {a b c : Pair M (Proc M R) (Proc M T)} (first : Goes loop spill a b)
    (second : Goes loop spill b c) : Goes loop spill a c := by
  obtain ⟨n, runs⟩ := first
  obtain ⟨m, continues⟩ := second
  exact ⟨n + m, runs.trans continues⟩

theorem goes_step {a b : Pair M (Proc M R) (Proc M T)} (step : TalkStep loop spill a b) :
    Goes loop spill a b := ⟨1, Run.head step (Run.refl b)⟩

variable {up down : Queue M}

theorem goes_clientPut (message : M) (flush : Bool) (next : Proc M R) (server : Proc M T) :
    Goes loop spill ⟨.put message flush next, server, up, down⟩
      ⟨next, server, up.put spill message flush, down⟩ :=
  goes_step (Step.clientPut rfl)

theorem goes_clientGet {message : M} {sent since : List M} (next : M → Proc M R) (server : Proc M T) :
    Goes loop spill ⟨.get next, server, up, ⟨since, message :: sent⟩⟩
      ⟨next message, server, up, ⟨since, sent⟩⟩ :=
  goes_step (Step.clientGet rfl rfl)

theorem goes_serverPut (message : M) (flush : Bool) (client : Proc M R) (next : Proc M T) :
    Goes loop spill ⟨client, .put message flush next, up, down⟩
      ⟨client, next, up, down.put spill message flush⟩ :=
  goes_step (Step.serverPut rfl)

theorem goes_serverGet {message : M} {sent since : List M} (client : Proc M R) (next : M → Proc M T) :
    Goes loop spill ⟨client, .get next, ⟨since, message :: sent⟩, down⟩
      ⟨client, next message, ⟨since, sent⟩, down⟩ :=
  goes_step (Step.serverGet rfl rfl)

theorem goes_serverLoop {message : M} {sent since : List M} (client : Proc M R) {state : T}
    {next : M → Proc M T} (waits : loop state = some next) :
    Goes loop spill ⟨client, .done state, ⟨since, message :: sent⟩, down⟩
      ⟨client, next message, ⟨since, sent⟩, down⟩ := by
  have act : serverAct loop (.done state) = .get next := by
    rw [serverAct, waits]
  exact goes_step (Step.serverGet act rfl)

theorem goes_serverPuts (messages : List M) (message : M) (client : Proc M R) (next : Proc M T) :
    Goes loop spill ⟨client, .puts messages (.put message true next), up, down⟩
      ⟨client, next, up, { sent := down.all spill ++ messages ++ [message] }⟩ := by
  induction messages generalizing down with
  | nil =>
    rw [List.append_nil, ← Queue.put_flush]
    exact goes_serverPut message true client next
  | cons first rest ih =>
    have others := @ih (down.put spill first false)
    rw [Queue.all_put, List.append_assoc (down.all spill), List.singleton_append] at others
    exact (goes_serverPut first false client _).trans others

theorem goes_clientPuts (messages : List M) (message : M) (next : Proc M R) (server : Proc M T) :
    Goes loop spill ⟨.puts messages (.put message true next), server, up, down⟩
      ⟨next, server, { sent := up.all spill ++ messages ++ [message] }, down⟩ := by
  induction messages generalizing up with
  | nil =>
    rw [List.append_nil, ← Queue.put_flush]
    exact goes_clientPut message true next server
  | cons first rest ih =>
    have others := @ih (up.put spill first false)
    rw [Queue.all_put, List.append_assoc (up.all spill), List.singleton_append] at others
    exact (goes_clientPut first false _ server).trans others

/-- What is got from messages that have arrived. -/
theorem goes_clientEval {proc : Proc M R} {server : Proc M T} : ∀ {messages rest since : List M}
    {result : R}, proc.eval messages = some (result, rest) → ∀ next : R → Proc M U,
    Goes loop spill ⟨proc.bind next, server, up, ⟨since, messages⟩⟩
      ⟨next result, server, up, ⟨since, rest⟩⟩ := by
  induction proc with
  | done value =>
    intro messages rest since result evaluates next
    cases evaluates
    exact Goes.refl _
  | put message flush proc ih =>
    intro messages rest since result evaluates next
    rw [Proc.eval] at evaluates
    cases evaluates
  | get proc ih =>
    intro messages rest since result evaluates next
    cases messages with
    | nil => cases evaluates
    | cons message messages =>
      rw [Proc.eval] at evaluates
      exact (goes_clientGet (fun message => (proc message).bind next) server).trans
        (ih message evaluates next)

/-- The client comes to its result and leaves the server waiting, with nothing in the queues. -/
def Answers (loop : T → Option (M → Proc M T)) (spill : Spill M) (proc : Proc M R) (state : T)
    (result : R) (state' : T) : Prop :=
  ∀ ⦃U : Type⦄ (next : R → Proc M U), Goes loop spill ⟨proc.bind next, .done state, {}, {}⟩
    ⟨next result, .done state', {}, {}⟩

theorem answers_done (result : R) (state : T) : Answers loop spill (.done result) state result state :=
  fun _ _ => Goes.refl _

theorem Answers.bind {proc : Proc M R} {f : R → Proc M U} {state state' state'' : T} {result : R}
    {result' : U} (first : Answers loop spill proc state result state')
    (second : Answers loop spill (f result) state' result' state'') :
    Answers loop spill (proc.bind f) state result' state'' := by
  intro V next
  rw [Proc.bind_assoc]
  exact (first fun result => (f result).bind next).trans (second next)

/-- In any order of steps the client comes to the same result: no run is longer than the total, and
each can be continued to the end, where nothing is left in the queues. -/
def EveryRun (loop : T → Option (M → Proc M T)) (spill : Spill M) (proc : Proc M R) (state : T)
    (result : R) (state' : T) : Prop :=
  ∃ total, ∀ steps pair, Run (TalkStep loop spill) steps ⟨proc, .done state, {}, {}⟩ pair →
    steps ≤ total ∧
      Run (TalkStep loop spill) (total - steps) pair ⟨.done result, .done state', {}, {}⟩

/-- The client has its result, and the server gets nothing more from its queue. -/
theorem stuck_done {result : R} {state : T} (ended : loop state = none ∨ up.sent = []) :
    Stuck (TalkStep loop spill) ⟨.done result, .done state, up, down⟩ := by
  intro b step
  cases step with
  | clientPut act => cases act
  | clientGet act => cases act
  | serverPut act =>
    rw [serverAct] at act
    split at act <;> cases act
  | serverGet act arrived =>
    rcases ended with ended | ended
    · rw [serverAct, ended] at act
      cases act
    · exact absurd (ended.symm.trans arrived) (by simp)

theorem Goes.every_run {first last : Pair M (Proc M R) (Proc M T)} (goes : Goes loop spill first last)
    (stuck : Stuck (TalkStep loop spill) last) :
    ∃ total, ∀ steps pair, Run (TalkStep loop spill) steps first pair →
      steps ≤ total ∧ Run (TalkStep loop spill) (total - steps) pair last := by
  obtain ⟨n, run⟩ := goes
  exact ⟨n, fun m pair other => run.complete diamond stuck other⟩

theorem Answers.every_run {proc : Proc M R} {state state' : T} {result : R}
    (answers : Answers loop spill proc state result state') :
    EveryRun loop spill proc state result state' := by
  have goes := answers .done
  rw [Proc.bind_done] at goes
  exact goes.every_run (stuck_done (.inr rfl))

end Talk

end Duplex
