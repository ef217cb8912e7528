import Backrest.ReadCalls

/-!
# Sequences of reads

The three ways to read may be mixed on one stream. What the calls return does not depend
on how the driver cuts the stream, and it starts the stream when two things are avoided:
small reads of more bytes than are left, and further reads after a line read has returned
the last line without its linefeed.
-/

namespace ReadSequence

open Text FuelLoop StreamFilter FilterGroup ReadStream

inductive Call where
  | read (size : Nat)
  | readSmall (size : Nat)
  | readLine (allowEof : Bool)

/-- What a call returns, which for a line may be an error. -/
inductive Answer where
  | bytes (used : Bytes)
  | line (result : Except Error Line)

/-- One call, each with a buffer of its own. -/
def call (fuel : Nat) (this : IoRead) : Call → Outcome Error (IoRead × Answer)
  | .read size => (ioRead fuel this ⟨[], size⟩).bind fun after => .ok (after.1, .bytes after.2.used)
  | .readSmall size =>
    (ioReadSmall fuel this ⟨[], size⟩).bind fun after => .ok (after.1, .bytes after.2.used)
  | .readLine allowEof =>
    (ioReadLineParam fuel this allowEof).bind fun after => .ok (after.1, .line after.2)

def calls (fuel : Nat) : IoRead → List Call → Outcome Error (List Answer)
  | _, [] => .ok []
  | this, first :: rest =>
    (call fuel this first).bind fun after =>
      (calls fuel after.1 rest).bind fun answers => .ok (after.2 :: answers)

def Answer.text : Answer → Bytes
  | .bytes used => used
  | .line (.ok found) => found.text ++ if found.terminated then [linefeed] else []
  | .line (.error _) => []

/-- All calls end, whatever the fragments are, and return the stream from its start. -/
def ReadsSound (bufferSize : Nat) (stream : Bytes) (requests : List Call) : Prop :=
  ∃ answers, (∀ fragments block, fragments.flatten = stream →
    Returns (fun fuel => calls fuel (ioReadOpen bufferSize block [] fragments) requests) answers) ∧
    answers.flatMap Answer.text <+: stream

/-! ## What the calls return -/

/-- What a call returns for the text that is left, and what is left after it. A small read never
ends when not enough is left. -/
def answer (bufferSize : Nat) (rest : Bytes) : Call → Option (Answer × Bytes)
  | .read size => some (.bytes (rest.take size), rest.drop size)
  | .readSmall size =>
    if size ≤ rest.length then some (.bytes (rest.take size), rest.drop size) else none
  | .readLine allowEof =>
    some (.line (lineAnswer bufferSize allowEof rest).1, (lineAnswer bufferSize allowEof rest).2)

def answers (bufferSize : Nat) : Bytes → List Call → Option (List Answer)
  | _, [] => some []
  | rest, first :: requests =>
    (answer bufferSize rest first).bind fun after =>
      (answers bufferSize after.2 requests).map fun more => after.1 :: more

section Sequence
variable {specs : List (FilterSpec × IoFilter)} {stream rest : Bytes} {this : IoRead}

theorem call_spec (pending : Pending specs stream this rest) (request : Call) :
    match answer this.bufferSize rest request with
    | some (result, rest') => ∃ after, Returns (fun fuel => call fuel this request) (after, result) ∧
        Pending specs stream after rest' ∧ after.bufferSize = this.bufferSize
    | none => Hangs (fun fuel => call fuel this request) := by
  cases request with
  | read size =>
    obtain ⟨⟨after, buffer⟩, returns, isBuffer, pending', sameSize, -, -⟩ :=
      ioRead_spec pending ⟨[], size⟩
    dsimp only at isBuffer
    subst isBuffer
    exact ⟨after, returns.bind (.of_eq fun _ => rfl), pending', sameSize⟩
  | readSmall size =>
    rcases smallRounds_spec pending ⟨[], size⟩ with
      ⟨enough, ⟨after, buffer⟩, loops, isBuffer, pending', sameSize⟩ | ⟨few, hangs⟩
    · dsimp only at isBuffer
      subst isBuffer
      have isAnswer : answer this.bufferSize rest (.readSmall size) =
          some (.bytes (rest.take size), rest.drop size) := if_pos enough
      rw [isAnswer]
      exact ⟨after, loops.returns.bind (.of_eq fun _ => rfl), pending', sameSize⟩
    · have isAnswer : answer this.bufferSize rest (.readSmall size) = none := if_neg (not_le.mpr few)
      rw [isAnswer]
      exact hangs.hangs.bind _
  | readLine allowEof =>
    obtain ⟨⟨after, line⟩, returns, isLine, pending', sameSize, -⟩ :=
      ioReadLineParam_spec pending allowEof
    dsimp only at isLine
    subst isLine
    exact ⟨after, returns.bind (.of_eq fun _ => rfl), pending', sameSize⟩

theorem calls_spec (pending : Pending specs stream this rest) (requests : List Call) :
    match answers this.bufferSize rest requests with
    | some results => Returns (fun fuel => calls fuel this requests) results
    | none => Hangs (fun fuel => calls fuel this requests) := by
  induction requests generalizing this rest with
  | nil => exact .of_eq fun _ => rfl
  | cons request requests ih =>
    have first := call_spec pending request
    rw [answers]
    cases isAnswer : answer this.bufferSize rest request with
    | none =>
      rw [isAnswer] at first
      exact first.bind _
    | some result =>
      rw [isAnswer] at first
      obtain ⟨after, returns, pending', sameSize⟩ := first
      have later := ih pending'
      rw [sameSize] at later
      rw [Option.bind_some]
      cases isAnswers : answers this.bufferSize result.2 requests with
      | none =>
        rw [isAnswers] at later
        exact returns.hangs (later.bind _)
      | some results =>
        rw [isAnswers] at later
        exact returns.bind (later.bind (.of_eq fun _ => rfl))

end Sequence

/-! ## When they return the stream -/

/-- The text after the next line, or all of it when there is no line that fits. -/
def afterLine (bufferSize : Nat) (rest : Bytes) : Bytes :=
  match (rest.take bufferSize).idxOf? linefeed with
  | some size => rest.drop (size + 1)
  | none => rest

def LastLine (bufferSize : Nat) (rest : Bytes) : Prop :=
  rest ≠ [] ∧ linefeed ∉ rest ∧ rest.length < bufferSize

/-- A call that asks for nothing of the last line. -/
def Call.Quiet : Call → Prop
  | .read size => size = 0
  | .readSmall size => size = 0
  | .readLine allowEof => allowEof = false

/-- No small read asks for more than is left, and nothing is asked for after the last line was
returned without a linefeed. -/
def Fine (bufferSize : Nat) : Bytes → List Call → Prop
  | _, [] => True
  | rest, .read size :: requests => Fine bufferSize (rest.drop size) requests
  | rest, .readSmall size :: requests =>
    size ≤ rest.length ∧ Fine bufferSize (rest.drop size) requests
  | rest, .readLine allowEof :: requests =>
    (allowEof = true → LastLine bufferSize rest → ∀ request ∈ requests, request.Quiet) ∧
      Fine bufferSize (afterLine bufferSize rest) requests

def Starts (bufferSize : Nat) (rest : Bytes) (requests : List Call) : Prop :=
  ∃ results, answers bufferSize rest requests = some results ∧ results.flatMap Answer.text <+: rest

section Fine
variable {bufferSize : Nat} {rest rest' : Bytes} {request : Call} {requests : List Call} {result : Answer}

theorem starts_cons (isAnswer : answer bufferSize rest request = some (result, rest'))
    (isRest : rest = result.text ++ rest') :
    Starts bufferSize rest (request :: requests) ↔ Starts bufferSize rest' requests := by
  subst isRest
  constructor
  · rintro ⟨results, areAnswers, starts⟩
    rw [answers, isAnswer, Option.bind_some, Option.map_eq_some_iff] at areAnswers
    obtain ⟨more, areMore, rfl⟩ := areAnswers
    rw [List.flatMap_cons, List.prefix_append_right_inj] at starts
    exact ⟨more, areMore, starts⟩
  · rintro ⟨results, areAnswers, starts⟩
    refine ⟨result :: results, ?_, ?_⟩
    · rw [answers, isAnswer, Option.bind_some, areAnswers]
      rfl
    · rw [List.flatMap_cons, List.prefix_append_right_inj]
      exact starts

theorem LastLine.answer (last : LastLine bufferSize rest) (allowEof : Bool) :
    ReadSequence.answer bufferSize rest (.readLine allowEof) =
      some (.line (if allowEof then .ok ⟨rest, false⟩ else .error lineEofError), rest) := by
  obtain ⟨-, noLinefeed, short⟩ := last
  have start : rest.take bufferSize = rest := List.take_of_length_le short.le
  rw [ReadSequence.answer, lineAnswer_none (by rw [start]; exact noLinefeed), if_neg (by omega)]
  cases allowEof <;> rfl

theorem quiet_answer (last : LastLine bufferSize rest) (quiet : request.Quiet) :
    ∃ result, answer bufferSize rest request = some (result, rest) ∧ result.text = [] := by
  cases request with
  | read size =>
    obtain rfl : size = 0 := quiet
    exact ⟨_, rfl, rfl⟩
  | readSmall size =>
    obtain rfl : size = 0 := quiet
    refine ⟨.bytes (rest.take 0), ?_, rfl⟩
    rw [answer, if_pos (Nat.zero_le rest.length)]
    rfl
  | readLine allowEof =>
    obtain rfl : allowEof = false := quiet
    exact ⟨_, last.answer false, rfl⟩

theorem quiet_of_text (last : LastLine bufferSize rest)
    (isAnswer : answer bufferSize rest request = some (result, rest')) (isNil : result.text = []) :
    request.Quiet := by
  have noBytes : ∀ size, rest.take size = [] → size = 0 := by
    intro size isNil
    exact (List.take_eq_nil_iff.mp isNil).resolve_right last.1
  cases request with
  | read size =>
    cases isAnswer
    exact noBytes size isNil
  | readSmall size =>
    rw [answer, Option.ite_none_right_eq_some] at isAnswer
    obtain ⟨-, same⟩ := isAnswer
    cases same
    exact noBytes size isNil
  | readLine allowEof =>
    cases allowEof with
    | false => rfl
    | true =>
      rw [last.answer true] at isAnswer
      cases isAnswer
      exact absurd (List.append_eq_nil_iff.mp isNil).1 last.1

/-- After the last line was returned the calls return nothing if and only if they ask for nothing. -/
theorem quiet_iff (last : LastLine bufferSize rest) (requests : List Call) :
    (∃ results, answers bufferSize rest requests = some results ∧ results.flatMap Answer.text = []) ↔
      ∀ request ∈ requests, request.Quiet := by
  induction requests with
  | nil => exact ⟨fun _ => nofun, fun _ => ⟨[], rfl, rfl⟩⟩
  | cons request requests ih =>
    rw [List.forall_mem_cons, ← ih]
    constructor
    · rintro ⟨results, areAnswers, isNil⟩
      rw [answers, Option.bind_eq_some_iff] at areAnswers
      obtain ⟨⟨result, rest'⟩, isAnswer, areAnswers⟩ := areAnswers
      obtain ⟨more, areMore, rfl⟩ := Option.map_eq_some_iff.mp areAnswers
      rw [List.flatMap_cons, List.append_eq_nil_iff] at isNil
      have quiet := quiet_of_text last isAnswer isNil.1
      obtain ⟨_, same, -⟩ := quiet_answer last quiet
      rw [isAnswer] at same
      cases same
      exact ⟨quiet, more, areMore, isNil.2⟩
    · rintro ⟨quiet, more, areMore, isNil⟩
      obtain ⟨result, isAnswer, noText⟩ := quiet_answer last quiet
      refine ⟨result :: more, ?_, ?_⟩
      · rw [answers, isAnswer, Option.bind_some, areMore]
        rfl
      · rw [List.flatMap_cons, noText, isNil]
        rfl

/-- The condition says nothing about calls that take their answer from the text. -/
theorem fine_of_quiet (starts : Starts bufferSize rest requests ↔ Fine bufferSize rest requests)
    (last : LastLine bufferSize rest) (quiet : ∀ request ∈ requests, request.Quiet) :
    Fine bufferSize rest requests := by
  obtain ⟨results, areAnswers, isNil⟩ := (quiet_iff last requests).mpr quiet
  apply starts.mp
  refine ⟨results, areAnswers, ?_⟩
  rw [isNil]
  exact List.nil_prefix

/-- The last line is returned once if and only if nothing is asked for after that. -/
theorem starts_last (last : LastLine bufferSize rest) (requests : List Call) :
    Starts bufferSize rest (.readLine true :: requests) ↔ ∀ request ∈ requests, request.Quiet := by
  rw [← quiet_iff last]
  constructor
  · rintro ⟨results, areAnswers, starts⟩
    rw [answers, last.answer true, Option.bind_some, Option.map_eq_some_iff] at areAnswers
    obtain ⟨more, areMore, rfl⟩ := areAnswers
    refine ⟨more, areMore, ?_⟩
    have short := starts.length_le
    simp only [if_true, List.flatMap_cons, Answer.text, Bool.false_eq_true, if_false, List.append_nil,
      List.length_append] at short
    exact List.eq_nil_of_length_eq_zero (by omega)
  · rintro ⟨more, areMore, isNil⟩
    refine ⟨.line (.ok ⟨rest, false⟩) :: more, ?_, ?_⟩
    · rw [answers, last.answer true, Option.bind_some, areMore]
      rfl
    · rw [List.flatMap_cons, isNil]
      simp [Answer.text]

theorem starts_line (ih : ∀ rest, Starts bufferSize rest requests ↔ Fine bufferSize rest requests)
    (rest : Bytes) (allowEof : Bool) :
    Starts bufferSize rest (.readLine allowEof :: requests) ↔
      Fine bufferSize rest (.readLine allowEof :: requests) := by
  rw [Fine]
  by_cases found : linefeed ∈ rest.take bufferSize
  · obtain ⟨line, more, isStart, noLinefeed⟩ := List.eq_append_cons_of_mem found
    have short : line.length < bufferSize := by
      have := congrArg List.length isStart
      rw [List.length_take, List.length_append, List.length_cons] at this
      omega
    have isRest : rest = line ++ linefeed :: (more ++ rest.drop bufferSize) := by
      rw [← List.cons_append, ← List.append_assoc, ← isStart, List.take_append_drop]
    generalize more ++ rest.drop bufferSize = rest' at isRest
    subst isRest
    have after : afterLine bufferSize (line ++ linefeed :: rest') = rest' := by
      rw [afterLine, isStart, idxOf_linefeed noLinefeed]
      dsimp only
      rw [List.drop_length_add_append]
      rfl
    have isAnswer : answer bufferSize (line ++ linefeed :: rest') (.readLine allowEof) =
        some (.line (.ok ⟨line, true⟩), rest') := by
      rw [answer, lineAnswer_line allowEof noLinefeed short]
    rw [after, starts_cons isAnswer (by simp [Answer.text]), ih]
    have notLast : ¬ LastLine bufferSize (line ++ linefeed :: rest') := by
      rintro ⟨-, none_, -⟩
      exact none_ (List.mem_append_right line List.mem_cons_self)
    exact ⟨fun fine => ⟨fun _ last => absurd last notLast, fine⟩, And.right⟩
  · have after : afterLine bufferSize rest = rest := by
      rw [afterLine, List.idxOf?_eq_none_iff.mpr found]
    rw [after]
    by_cases last : LastLine bufferSize rest
    · cases allowEof with
      | true =>
        rw [starts_last last]
        exact ⟨fun quiet => ⟨fun _ _ => quiet, fine_of_quiet (ih rest) last quiet⟩,
          fun fine => fine.1 rfl last⟩
      | false =>
        rw [starts_cons (last.answer false) rfl, ih]
        exact ⟨fun fine => ⟨nofun, fine⟩, And.right⟩
    · have noText : ∃ result, answer bufferSize rest (.readLine allowEof) = some (result, rest) ∧
          result.text = [] := by
        rw [answer, lineAnswer_none found]
        by_cases long : bufferSize ≤ rest.length
        · rw [if_pos long]
          exact ⟨_, rfl, rfl⟩
        · rw [if_neg long]
          have whole : rest.take bufferSize = rest := List.take_of_length_le (by omega)
          obtain rfl : rest = [] := by
            by_contra nonempty
            exact last ⟨nonempty, by rwa [whole] at found, by omega⟩
          cases allowEof with
          | true => exact ⟨_, rfl, rfl⟩
          | false => exact ⟨_, rfl, rfl⟩
      obtain ⟨result, isAnswer, isNil⟩ := noText
      rw [starts_cons isAnswer (by rw [isNil]; rfl), ih]
      exact ⟨fun fine => ⟨fun _ isLast => absurd isLast last, fine⟩, And.right⟩

theorem starts_iff (rest : Bytes) (requests : List Call) :
    Starts bufferSize rest requests ↔ Fine bufferSize rest requests := by
  induction requests generalizing rest with
  | nil => exact ⟨fun _ => trivial, fun _ => ⟨[], rfl, List.nil_prefix⟩⟩
  | cons request requests ih =>
    cases request with
    | read size =>
      have isAnswer : answer bufferSize rest (.read size) = some (.bytes (rest.take size), rest.drop size) :=
        rfl
      exact (starts_cons isAnswer (List.take_append_drop size rest).symm).trans (ih _)
    | readSmall size =>
      by_cases enough : size ≤ rest.length
      · have isAnswer : answer bufferSize rest (.readSmall size) =
            some (.bytes (rest.take size), rest.drop size) := if_pos enough
        rw [starts_cons isAnswer (List.take_append_drop size rest).symm, ih, Fine]
        exact ⟨fun fine => ⟨enough, fine⟩, And.right⟩
      · have isAnswer : answer bufferSize rest (.readSmall size) = none := if_neg enough
        constructor
        · rintro ⟨results, areAnswers, -⟩
          rw [answers, isAnswer] at areAnswers
          cases areAnswers
        · exact fun fine => absurd fine.1 enough
    | readLine allowEof => exact starts_line ih rest allowEof

/-- An object without filters that was just opened has the whole stream left. -/
theorem pending_stream (positive : 0 < bufferSize) (block : Bool) (fragments : List Bytes) :
    Pending (withBufferSpec []) fragments.flatten (ioReadOpen bufferSize block [] fragments)
      fragments.flatten :=
  @pending_open [] bufferSize positive block nofun fragments

theorem readsSound_iff_starts (positive : 0 < bufferSize) (stream : Bytes) (requests : List Call) :
    ReadsSound bufferSize stream requests ↔ Starts bufferSize stream requests := by
  constructor
  · rintro ⟨results, run, starts⟩
    have whole : [stream].flatten = stream := by simp
    have spec := calls_spec (pending_stream positive false [stream]) requests
    rw [whole] at spec
    have returns := run [stream] false whole
    change match answers bufferSize stream requests with | some _ => _ | none => _ at spec
    cases areAnswers : answers bufferSize stream requests with
    | none =>
      rw [areAnswers] at spec
      exact absurd returns (spec.not_returns results)
    | some results' =>
      rw [areAnswers] at spec
      obtain rfl := returns.unique spec
      exact ⟨results, areAnswers, starts⟩
  · rintro ⟨results, areAnswers, starts⟩
    refine ⟨results, fun fragments block isStream => ?_, starts⟩
    subst isStream
    have spec := calls_spec (pending_stream positive block fragments) requests
    change match answers bufferSize fragments.flatten requests with | some _ => _ | none => _ at spec
    rw [areAnswers] at spec
    exact spec

/-- The calls end and return the stream from its start, for all ways to cut it, if and only if
the condition holds. -/
theorem reads_sound_iff (positive : 0 < bufferSize) (stream : Bytes) (requests : List Call) :
    ReadsSound bufferSize stream requests ↔ Fine bufferSize stream requests :=
  (readsSound_iff_starts positive stream requests).trans (starts_iff stream requests)

/-- Both conditions on a stream of two lines. -/
theorem reads_sound_iff_two :
    0 < 65536 ∧ ReadsSound 65536 [97, 10, 98, 99]
      [.readLine false, .readSmall 1, .readLine true, .read 0, .readLine false] := by
  refine ⟨by decide, (reads_sound_iff (by decide) _ _).mpr ?_⟩
  refine ⟨nofun, by decide, fun _ _ => ?_, nofun, trivial⟩
  simp [Call.Quiet]

/-- A small read waits for bytes that cannot come, and a second line read returns the last line
again. -/
theorem reads_unsound : ¬ ReadsSound 65536 [97] [.readSmall 2] ∧
    ¬ ReadsSound 65536 [97] [.readLine true, .readLine true] := by
  have positive : 0 < 65536 := by decide
  rw [readsSound_iff_starts positive, readsSound_iff_starts positive]
  constructor
  · rintro ⟨results, areAnswers, -⟩
    cases areAnswers
  · rintro ⟨results, areAnswers, starts⟩
    cases areAnswers
    have short : 2 ≤ 1 := starts.length_le
    omega

end Fine

end ReadSequence
