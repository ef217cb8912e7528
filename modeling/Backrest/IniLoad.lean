import Backrest.ReadCalls

/-!
# Loading an ini file

`iniLoad` reads lines until the end of the file and passes each to a handler, which keeps
the current section and hands key/values to a callback. The end of the file is a flag of
the reader, which may be set while lines wait in the line buffer. That happens when the
end is found in a read that also got data, and a read does that only when the filter
group was asked for more of a flush and is done then.
-/

namespace IniLoad

open Text FuelLoop StreamFilter FilterGroup ReadStream

/-- A byte is a character of its own. -/
def strNewN (text : Bytes) : Str := text.map fun b => Char.ofNat b.toNat

/-- What a C function sees of a string. -/
def strZ (this : Str) : Str := this.takeWhile (· ≠ Char.ofNat 0)

section Lines
variable {σ ν : Type} (jsonToVar : Str → Except Error ν)
  (callbackFunction : σ → Str → Str → Str → ν → Except Error σ)

/-- Get key/value at the first = that is followed by valid JSON. -/
def keyValue (key : Str) : Str → Except Error (Option (Str × Str × ν))
  | [] => .ok none
  | c :: rest =>
    if c = '=' then
      match jsonToVar rest with
      | .ok valueVar => .ok (some (key, rest, valueVar))
      | .error e =>
        -- Try again with = in new position
        if e.type = .jsonFormatError then keyValue (key ++ [c]) rest else .error e
    else keyValue (key ++ [c]) rest

/-- The variables of the loop over the lines. -/
structure IniState (σ : Type) where
  currentSection : Option Str := none
  lineIdx : Nat := 0
  callbackData : σ

def lineFormatError (text : Str) (lineIdx : Nat) (linePtr : Str) : Error :=
  ⟨.formatError, text ++ " at line ".toList ++ fmtUInt lineIdx ++ ": ".toList ++ linePtr⟩

/-- Process one line. -/
def iniLine (state : IniState σ) (line : Str) : Except Error (IniState σ) :=
  let linePtr := strZ line
  -- Only interested in lines that are not blank
  if line.length = 0 then .ok { state with lineIdx := state.lineIdx + 1 }
  -- The line is a section
  else if line.head? = some '[' ∧ line.getLast? = some ']' then
    .ok { state with
      currentSection := some ((line.drop 1).take (line.length - 2)), lineIdx := state.lineIdx + 1 }
  else
    match state.currentSection with
    | none => .error (lineFormatError "key/value found outside of section".toList (state.lineIdx + 1) linePtr)
    | some currentSection =>
      if '=' ∉ linePtr then
        .error (lineFormatError "missing '=' in key/value".toList (state.lineIdx + 1) linePtr)
      else
        match keyValue jsonToVar [] linePtr with
        | .error e => .error e
        | .ok none => .error (lineFormatError "invalid JSON value".toList (state.lineIdx + 1) linePtr)
        | .ok (some (key, value, valueVar)) =>
          -- Key may not be zero-length
          if key.length = 0 then
            .error (lineFormatError "key is zero-length".toList state.lineIdx linePtr)
          else
            match callbackFunction state.callbackData currentSection key value valueVar with
            | .error e => .error e
            | .ok callbackData =>
              .ok { state with lineIdx := state.lineIdx + 1, callbackData := callbackData }

/-- Process lines one after the other. -/
def handleLines (state : IniState σ) (lines : List Bytes) : Except Error (IniState σ) :=
  lines.foldlM (fun state line => iniLine jsonToVar callbackFunction state (strNewN line)) state

def iniLines (callbackData : σ) (lines : List Bytes) : Except Error σ :=
  (handleLines jsonToVar callbackFunction { callbackData := callbackData } lines).map IniState.callbackData

/-- One round of the loop of `iniLoad`. -/
def iniLoadRound (fuel : Nat) (this : IoRead × IniState σ) :
    Outcome Error ((IoRead × IniState σ) ⊕ (IoRead × Except Error σ)) :=
  (ioReadLineParam fuel this.1 true).bind fun (read, line) =>
    match line with
    | .error e => .ok (.inr (read, .error e))
    | .ok line =>
      match iniLine jsonToVar callbackFunction this.2 (strNewN line.text) with
      | .error e => .ok (.inr (read, .error e))
      | .ok state =>
        if ioReadEof read then .ok (.inr (read, .ok state.callbackData)) else .ok (.inl (read, state))

def iniLoad (fuel : Nat) (read : IoRead) (callbackData : σ) : Outcome Error (IoRead × Except Error σ) :=
  loop (iniLoadRound jsonToVar callbackFunction fuel) fuel (read, { callbackData := callbackData })

/-- A state of a run before a call of `ioReadLineParam`. -/
def Before (start state : IoRead × IniState σ) : Prop :=
  Relation.ReflTransGen (fun this next =>
    Returns (fun fuel => iniLoadRound jsonToVar callbackFunction fuel this) (.inl next)) start state

end Lines

/-- All lines of a text, or all but the empty one after the last linefeed. -/
def SeenLines (text : Bytes) (lines : List Bytes) : Prop :=
  lines = text.splitOn linefeed ∨ lines ++ [[]] = text.splitOn linefeed

/-- The text that is left is not more than one line. -/
def OneLine (rest : Bytes) : Prop := ∀ line more, rest = line ++ linefeed :: more → more = []

/-- When the line buffer needs data and the group, asked for more of a flush, will be done then, at
most one line is left. -/
def Safe (specs : List (FilterSpec × IoFilter)) (stream : Bytes) (this : IoRead) : Prop :=
  linefeed ∉ retained this → Finishing this ⟨retained this, this.bufferSize⟩ →
    ∀ rest, Pending specs stream this rest → OneLine rest

section Run
variable {σ ν : Type} {jsonToVar : Str → Except Error ν}
  {callbackFunction : σ → Str → Str → Str → ν → Except Error σ}
  {specs : List (FilterSpec × IoFilter)} {stream rest : Bytes} {this : IoRead}

def LinesFit (bufferSize : Nat) (text : Bytes) : Prop :=
  ∀ line ∈ text.splitOn linefeed, line.length < bufferSize

instance (bufferSize : Nat) (text : Bytes) : Decidable (LinesFit bufferSize text) :=
  inferInstanceAs (Decidable (∀ line ∈ text.splitOn linefeed, line.length < bufferSize))

theorem length_le_of_mem_splitOn (text : Bytes) :
    ∀ line ∈ text.splitOn linefeed, line.length ≤ text.length := by
  induction size : text.length using Nat.strongRecOn generalizing text with
  | ind size' ih =>
    intro line mem
    by_cases found : linefeed ∈ text
    · obtain ⟨front, back, rfl, absent⟩ := List.eq_append_cons_of_mem found
      rw [List.length_append, List.length_cons] at size
      rw [List.splitOn_append_cons_self_of_not_mem absent] at mem
      rcases List.mem_cons.mp mem with rfl | later
      · omega
      · have short := ih back.length (by omega) back rfl line later
        omega
    · rw [List.splitOn_eq_singleton found, List.mem_singleton] at mem
      rw [mem]
      omega

theorem linesFit_whole (text : Bytes) : LinesFit (text.length + 1) text :=
  fun line mem => Nat.lt_succ_of_le (length_le_of_mem_splitOn text line mem)

theorem ioReadLine_next (pending : Pending specs stream this rest) (notEof : this.eofAll = false)
    (fits : LinesFit this.bufferSize rest) (safe : Safe specs stream this) :
    ∃ after line, Returns (fun fuel => ioReadLineParam fuel this true) (after, .ok line) ∧
      after.bufferSize = this.bufferSize ∧ linefeed ∉ line.text ∧
      ((∃ more, rest = line.text ++ linefeed :: more ∧ Pending specs stream after more ∧
          (after.eofAll = true → more = [])) ∨
        rest = line.text ∧ after.eofAll = true) := by
  obtain ⟨⟨after, result⟩, returns, isResult, pending', sameSize, lineEof⟩ :=
    ioReadLineParam_spec pending true
  dsimp only at isResult pending' sameSize
  by_cases found : linefeed ∈ rest
  · obtain ⟨line, more, rfl, noLinefeed⟩ := List.eq_append_cons_of_mem found
    have short : line.length < this.bufferSize := by
      apply fits line
      rw [List.splitOn_append_cons_self_of_not_mem noLinefeed]
      exact List.mem_cons_self
    rw [lineAnswer_line true noLinefeed short] at isResult pending'
    subst isResult
    refine ⟨after, ⟨line, true⟩, returns, sameSize, noLinefeed, .inl ⟨more, rfl, pending', ?_⟩⟩
    intro isEof
    have ended := lineEof ⟨line, true⟩ rfl
    rw [if_pos rfl] at ended
    rcases ended isEof with before | ⟨noneRetained, finishing⟩
    · rw [notEof] at before
      cases before
    · exact safe noneRetained finishing _ pending line more rfl
  · have short : rest.length < this.bufferSize := by
      apply fits rest
      rw [List.splitOn_eq_singleton found]
      exact List.mem_cons_self
    have noneThere : linefeed ∉ rest.take this.bufferSize := fun mem => found (List.mem_of_mem_take mem)
    rw [lineAnswer_none noneThere, if_neg (by omega), if_pos rfl] at isResult
    subst isResult
    exact ⟨after, ⟨rest, false⟩, returns, sameSize, found, .inr ⟨rfl, lineEof ⟨rest, false⟩ rfl⟩⟩

theorem handleLines_error {state : IniState σ} {line : Bytes} {e : Error}
    (failed : iniLine jsonToVar callbackFunction state (strNewN line) = .error e) (lines : List Bytes) :
    handleLines jsonToVar callbackFunction state (line :: lines) = .error e := by
  rw [handleLines, List.foldlM_cons, failed]
  rfl

theorem handleLines_ok {state state' : IniState σ} {line : Bytes}
    (handled : iniLine jsonToVar callbackFunction state (strNewN line) = .ok state')
    (lines : List Bytes) :
    handleLines jsonToVar callbackFunction state (line :: lines) =
      handleLines jsonToVar callbackFunction state' lines := by
  rw [handleLines, List.foldlM_cons, handled]
  rfl

theorem iniLoad_rounds {state : IniState σ} (pending : Pending specs stream this rest)
    (notEof : this.eofAll = false) (fits : LinesFit this.bufferSize rest)
    (safe : ∀ next, Before jsonToVar callbackFunction (this, state) next → Safe specs stream next.1) :
    ∃ after lines, SeenLines rest lines ∧
      LoopReturns (iniLoadRound jsonToVar callbackFunction) (this, state)
        (after, (handleLines jsonToVar callbackFunction state lines).map IniState.callbackData) := by
  induction size : rest.length using Nat.strongRecOn generalizing rest this state with
  | ind size' ih =>
    subst size
    obtain ⟨after, line, returns, sameSize, noLinefeed, next⟩ :=
      ioReadLine_next pending notEof fits (safe _ Relation.ReflTransGen.refl)
    have isFirst : ∃ lines, rest.splitOn linefeed = line.text :: lines := by
      rcases next with ⟨more, isRest, -⟩ | ⟨isRest, -⟩
      · rw [isRest, List.splitOn_append_cons_self_of_not_mem noLinefeed]
        exact ⟨_, rfl⟩
      · rw [isRest, List.splitOn_eq_singleton noLinefeed]
        exact ⟨_, rfl⟩
    cases handled : iniLine jsonToVar callbackFunction state (strNewN line.text) with
    | error e =>
      obtain ⟨lines, isSplit⟩ := isFirst
      refine ⟨after, line.text :: lines, .inl isSplit.symm, .stop ?_⟩
      rw [handleLines_error handled]
      refine returns.bind (.of_eq fun _ => ?_)
      dsimp only
      rw [handled]
      rfl
    | ok state' =>
      have round : Returns (fun fuel => iniLoadRound jsonToVar callbackFunction fuel (this, state))
          (if after.eofAll then .inr (after, .ok state'.callbackData) else .inl (after, state')) := by
        refine returns.bind (.of_eq fun _ => ?_)
        dsimp only
        rw [handled]
        exact (apply_ite Outcome.ok _ _ _).symm
      cases isEof : after.eofAll with
      | true =>
        rw [isEof, if_pos rfl] at round
        refine ⟨after, [line.text], ?_, .stop ?_⟩
        · rcases next with ⟨more, isRest, -, ended⟩ | ⟨isRest, -⟩
          · right
            rw [isRest, List.splitOn_append_cons_self_of_not_mem noLinefeed, ended isEof]
            rfl
          · left
            rw [isRest, List.splitOn_eq_singleton noLinefeed]
        · rw [handleLines_ok handled]
          exact round
      | false =>
        rw [isEof, if_neg Bool.false_ne_true] at round
        rcases next with ⟨more, isRest, pending', -⟩ | ⟨-, isEof'⟩
        · have isSplit : rest.splitOn linefeed = line.text :: more.splitOn linefeed := by
            rw [isRest, List.splitOn_append_cons_self_of_not_mem noLinefeed]
          have fits' : LinesFit after.bufferSize more := by
            intro other mem
            rw [sameSize]
            apply fits
            rw [isSplit]
            exact List.mem_cons_of_mem _ mem
          have less : more.length < rest.length := by
            rw [isRest, List.length_append, List.length_cons]
            omega
          obtain ⟨last, lines, seen, loops⟩ := ih more.length less pending' isEof fits'
            (fun next before => safe next (before.head round)) rfl
          refine ⟨last, line.text :: lines, ?_, ?_⟩
          · rcases seen with whole | butLast
            · exact .inl (by rw [isSplit, whole])
            · exact .inr (by rw [isSplit, ← butLast]; rfl)
          · rw [handleLines_ok handled]
            exact loops.next round
        · rw [isEof] at isEof'
          cases isEof'

/-- The loop sees every line of the filtered text once and in order, in every run whose states
before line reads are safe. -/
theorem iniLoad_lines {bufferSize : Nat} {block : Bool} {fragments : List Bytes} {callbackData : σ}
    (positive : 0 < bufferSize) (honoured : ∀ spec ∈ specs, Honoured spec)
    (fits : LinesFit bufferSize (compose specs fragments.flatten))
    (safe : ∀ state, Before jsonToVar callbackFunction
      (ioReadOpen bufferSize block (specs.map Prod.snd) fragments, { callbackData := callbackData }) state →
      Safe (withBufferSpec specs) fragments.flatten state.1) :
    ∃ after lines, SeenLines (compose specs fragments.flatten) lines ∧
      Returns (fun fuel => iniLoad jsonToVar callbackFunction fuel
        (ioReadOpen bufferSize block (specs.map Prod.snd) fragments) callbackData)
        (after, iniLines jsonToVar callbackFunction callbackData lines) := by
  obtain ⟨after, lines, seen, loops⟩ :=
    iniLoad_rounds (pending_open positive block honoured fragments) rfl fits safe
  exact ⟨after, lines, seen, loops.returns⟩

/-- A group that writes all it can without a flush writes nothing when it finishes. -/
theorem safe_of_prompt (prompt : Prompt specs) (stream : Bytes) (this : IoRead) :
    Safe specs stream this := by
  rintro noLinefeed ⟨notFull, isSame, last, returns, isDone⟩ rest ⟨⟨tail, ahead, rfl⟩, -⟩
  have none : tail = [] := by
    by_cases isEof : this.eofAll = true
    · exact ahead.eof isEof
    · obtain ⟨slot, inp, out, places, at_, isTail⟩ := ahead
      obtain ⟨after, -, called, written, slot', inp', places', isWritten, -, at', -, unended, -⟩ :=
        step_same at_ (Bool.eq_false_iff.mpr isEof) isSame (bufFull_eq_false.mp notFull)
      have isDone' : after.1.filterGroup.done = true := by
        rw [← called.unique returns] at isDone
        exact isDone
      have same := unended.prompt prompt isDone'
      rw [isWritten] at same
      have nothing : written = [] :=
        List.append_right_eq_self.mp (congrArg Buffer.used same)
      have whole := at'.done_out isDone'
      rw [nothing, List.append_nil] at whole
      rw [← whole] at isTail
      exact List.append_right_eq_self.mp isTail.symm
  intro line more split
  rw [none, List.append_nil] at split
  rw [split] at noLinefeed
  exact absurd (List.mem_append_right line List.mem_cons_self) noLinefeed

/-- Without filters the loop sees every line. -/
theorem iniLoad_plain {bufferSize : Nat} {block : Bool} {fragments : List Bytes} {callbackData : σ}
    (positive : 0 < bufferSize) (fits : LinesFit bufferSize fragments.flatten) :
    ∃ after lines, SeenLines fragments.flatten lines ∧
      Returns (fun fuel => iniLoad jsonToVar callbackFunction fuel
        (ioReadOpen bufferSize block [] fragments) callbackData)
        (after, iniLines jsonToVar callbackFunction callbackData lines) := by
  have pending := @pending_open [] bufferSize positive block (by simp) fragments
  obtain ⟨after, lines, seen, loops⟩ := @iniLoad_rounds _ _ jsonToVar callbackFunction _ _ _ _
    { callbackData := callbackData } pending rfl fits
    fun next _ => safe_of_prompt prompt_buffer _ next.1
  exact ⟨after, lines, seen, loops.returns⟩

end Run

section Fuel
variable {σ ν : Type} {jsonToVar : Str → Except Error ν}
  {callbackFunction : σ → Str → Str → Str → ν → Except Error σ}

theorem iniLoadRound_mono (this : IoRead × IniState σ) :
    Mono fun fuel => iniLoadRound jsonToVar callbackFunction fuel this :=
  .bind (ioReadLineParam_mono _ _) fun _ => .const _

theorem iniLoad_mono (read : IoRead) (callbackData : σ) :
    Mono fun fuel => iniLoad jsonToVar callbackFunction fuel read callbackData :=
  Mono.loop iniLoadRound_mono _

/-- The other states of a run come after its first round. -/
theorem before_round {start next state : IoRead × IniState σ} (fuel : Nat)
    (goesOn : iniLoadRound jsonToVar callbackFunction fuel start = .ok (.inl next))
    (before : Before jsonToVar callbackFunction start state) :
    state = start ∨ Before jsonToVar callbackFunction next state := by
  rcases Relation.ReflTransGen.cases_head before with same | ⟨other, goesOn', later⟩
  · exact .inl same.symm
  · have both := goesOn'.unique ((iniLoadRound_mono start).returns goesOn)
    cases both
    exact .inr later

theorem before_last {start state : IoRead × IniState σ} (fuel : Nat) {last : IoRead × Except Error σ}
    (stops : iniLoadRound jsonToVar callbackFunction fuel start = .ok (.inr last))
    (before : Before jsonToVar callbackFunction start state) : state = start := by
  rcases Relation.ReflTransGen.cases_head before with same | ⟨next, goesOn, -⟩
  · exact same.symm
  · have both := goesOn.unique ((iniLoadRound_mono start).returns stops)
    cases both

/-- A read that gets a line without a linefeed says what is left. -/
theorem oneLine_of_unterminated {specs : List (FilterSpec × IoFilter)} {stream rest : Bytes}
    {this after : IoRead} (fuel : Nat) {text : Bytes}
    (pending : Pending specs stream this rest)
    (read : ioReadLineParam fuel this true = .ok (after, .ok ⟨text, false⟩)) : OneLine rest := by
  obtain ⟨after', returns, isResult, -⟩ := ioReadLineParam_spec pending true
  obtain rfl := returns.unique ((ioReadLineParam_mono this true).returns read)
  rintro line more rfl
  by_cases inside : linefeed ∈ (line ++ linefeed :: more).take this.bufferSize
  · cases found : ((line ++ linefeed :: more).take this.bufferSize).idxOf? linefeed with
    | none => exact absurd inside (List.idxOf?_eq_none_iff.mp found)
    | some size =>
      rw [lineAnswer, found] at isResult
      cases isResult
  · rw [lineAnswer_none inside] at isResult
    split at isResult
    · cases isResult
    · rename_i short
      rw [List.take_of_length_le (by omega)] at inside
      exact absurd (List.mem_append_right line List.mem_cons_self) inside

end Fuel

/-! ## A filter that holds back its output -/

section Hold

/-- Everything that was given is held back until the flush, as a block cipher does with its last
block. -/
structure Hold where
  held : Bytes := []
  inputSame : Bool := false
  done : Bool := false

def holdProcess (this : Hold) (input : Option Bytes) (room : Nat) : Hold × Bytes :=
  match input with
  | some c => ({ this with held := this.held ++ c }, [])
  | none =>
    if this.held.length ≤ room then ({ done := true }, this.held)
    else ({ held := this.held.drop room, inputSame := true }, this.held.take room)

def holdNew : IoFilter where
  State := Hold
  interface :=
    { done := some Hold.done, processInOut := some holdProcess, inputSame := some Hold.inputSame }
  driver := {}

def holdFilter (driver : Hold) (flushing : Bool) : IoFilter :=
  ⟨Hold, holdNew.interface, driver, flushing⟩

/-- Where a filter that holds back its output is. -/
def HoldAt (this : IoFilter) (inp out : Bytes) : Slot → Prop
  | .idle => this = holdFilter { held := inp } false ∧ out = []
  | .busy _ => False
  | .flushing => this = holdFilter { done := true } true ∧ out = inp ∨
      ∃ held, held ≠ [] ∧ this = holdFilter { held := held, inputSame := true } true ∧ inp = out ++ held

theorem callInOut_hold_flush {driver : Hold} {flushing : Bool} {room : Nat} (notDone : driver.done = false) :
    callInOut (holdFilter driver flushing) none room =
      if driver.held.length ≤ room then (holdFilter { done := true } true, driver.held)
      else (holdFilter { held := driver.held.drop room, inputSame := true } true, driver.held.take room) := by
  have called : callInOut (holdFilter driver flushing) none room =
      (holdFilter (holdProcess driver none room).1 true, (holdProcess driver none room).2) := by
    obtain ⟨held, inputSame, done⟩ := driver
    obtain rfl : done = false := notDone
    cases flushing <;> rfl
  rw [called, holdProcess]
  split <;> rfl

theorem holdAt_flush {inp out held : Bytes} {room : Nat} {inputSame flushing : Bool}
    (isInp : inp = out ++ held) :
    HoldAt (callInOut (holdFilter { held := held, inputSame := inputSame } flushing) none room).1 inp
      (out ++ (callInOut (holdFilter { held := held, inputSame := inputSame } flushing) none room).2)
      .flushing := by
  rw [callInOut_hold_flush rfl]
  by_cases all : held.length ≤ room
  · rw [if_pos all]
    exact .inl ⟨rfl, isInp.symm⟩
  · rw [if_neg all]
    refine .inr ⟨held.drop room, ?_, rfl, ?_⟩
    · intro isNil
      exact all (List.drop_eq_nil_iff.mp isNil)
    · rw [isInp, List.append_assoc, List.take_append_drop]

theorem holdAt_reach {this : IoFilter} {slot : Slot} {inp out : Bytes}
    (reach : Reach holdNew this slot inp out) : HoldAt this inp out slot := by
  induction reach with
  | start => exact ⟨rfl, rfl⟩
  | @call this slot inp out input room before allowed positive notDone ih =>
    cases allowed with
    | @input c nonempty =>
      obtain ⟨rfl, rfl⟩ := ih
      exact ⟨rfl, rfl⟩
    | again => exact ih.elim
    | flush =>
      obtain ⟨rfl, rfl⟩ := ih
      simpa [fresh, nextSlot] using @holdAt_flush inp [] inp room false false rfl
    | flushAgain =>
      rcases ih with ⟨rfl, rfl⟩ | ⟨held, nonempty, rfl, rfl⟩
      · cases notDone
      · simpa [fresh, nextSlot] using @holdAt_flush (out ++ held) out held room true true rfl

/-- A call writes nothing, or writes in the flush what there is space for. -/
theorem hold_call {this : IoFilter} {slot : Slot} {inp out : Bytes} {input : Option Bytes} {room : Nat}
    (isAt : HoldAt this inp out slot) (allowed : Allowed slot input) (positive : 0 < room)
    (notDone : ioFilterDone this = false) :
    (callInOut this input room).2.length ≤ room ∧
      (ioFilterInputSame (callInOut this input room).1 = true → (callInOut this input room).2 ≠ []) := by
  have flush : ∀ {held : Bytes} {inputSame flushing : Bool},
      (callInOut (holdFilter { held := held, inputSame := inputSame } flushing) none room).2.length ≤ room ∧
      (ioFilterInputSame
          (callInOut (holdFilter { held := held, inputSame := inputSame } flushing) none room).1 = true →
        (callInOut (holdFilter { held := held, inputSame := inputSame } flushing) none room).2 ≠ []) := by
    intro held inputSame flushing
    rw [callInOut_hold_flush rfl]
    by_cases all : held.length ≤ room
    · rw [if_pos all]
      exact ⟨all, fun same => Bool.noConfusion same⟩
    · rw [if_neg all]
      refine ⟨List.length_take_le _ _, fun _ isNil => ?_⟩
      have lengths := congrArg List.length isNil
      rw [List.length_take, List.length_nil] at lengths
      dsimp only at lengths all
      omega
  cases allowed with
  | input nonempty =>
    obtain ⟨rfl, rfl⟩ := isAt
    exact ⟨Nat.zero_le _, fun same => Bool.noConfusion same⟩
  | again => exact isAt.elim
  | flush =>
    obtain ⟨rfl, rfl⟩ := isAt
    exact flush
  | flushAgain =>
    rcases isAt with ⟨rfl, rfl⟩ | ⟨held, nonempty, rfl, rfl⟩
    · cases notDone
    · exact flush

/-- Each call of the flush takes something from what is held back. -/
theorem hold_ends {inp out : Bytes} {this : IoFilter} (isAt : HoldAt this inp out .flushing) :
    Acc Step (this, .flushing) := by
  induction left : inp.length - out.length using Nat.strongRecOn generalizing this out with
  | ind left' ih =>
    constructor
    rintro ⟨g, slot⟩ ⟨input, room, allowed, -, positive, notDone, isCalled, isSlot⟩
    cases allowed
    dsimp only at isCalled isSlot
    subst isCalled isSlot
    rcases isAt with ⟨rfl, rfl⟩ | ⟨held, nonempty, rfl, rfl⟩
    · cases notDone
    · have isAt' := @holdAt_flush (out ++ held) out held room true true rfl
      refine ih _ ?_ isAt' rfl
      have some_ := List.length_pos_iff.mpr nonempty
      rw [callInOut_hold_flush rfl]
      rw [List.length_append] at left
      split
      · rw [List.length_append]
        omega
      · rw [List.length_append, List.length_append, List.length_take]
        dsimp only
        omega

theorem holdNew_honours : Honours id holdNew where
  isOutput := rfl
  notFlushing := rfl
  notSame := rfl
  fits := fun reach allowed positive notDone =>
    (hold_call (holdAt_reach reach) allowed positive notDone).1
  same := fun reach allowed positive notDone =>
    (hold_call (holdAt_reach reach) allowed positive notDone).2
  done := by
    intro this slot inp out reach isDone
    have isAt := holdAt_reach reach
    cases slot with
    | idle =>
      obtain ⟨rfl, -⟩ := isAt
      cases isDone
    | busy c => exact isAt.elim
    | flushing =>
      rcases isAt with ⟨rfl, rfl⟩ | ⟨held, nonempty, rfl, rfl⟩
      · exact ⟨rfl, rfl⟩
      · cases isDone
  ends := by
    intro this slot inp out reach
    have isAt := holdAt_reach reach
    cases slot with
    | idle =>
      obtain ⟨rfl, rfl⟩ := isAt
      constructor
      rintro ⟨g, slot⟩ ⟨input, room, allowed, isFlush, -, -, isCalled, isSlot⟩
      obtain rfl := isFlush rfl
      dsimp only at isCalled isSlot
      subst isCalled isSlot
      exact hold_ends (@holdAt_flush inp [] inp room false false rfl)
    | busy c => exact isAt.elim
    | flushing => exact hold_ends isAt

def collect (seen : List (Str × Str × Str)) (currentSection key value : Str) (_ : Unit) :
    Except Error (List (Str × Str × Str)) :=
  .ok (seen ++ [(currentSection, key, value)])

/-- Three lines in two fragments, held back until the flush. The flush fills the line buffer with two
of them and asks again. -/
theorem iniLoad_lines_held : ∃ fragments, fragments = [[91, 97], [93, 10, 98, 61, 49, 10, 99, 61, 49]] ∧
    0 < 8 ∧ (∀ spec ∈ [(.inOut id, holdNew)], Honoured spec) ∧ LinesFit 8 fragments.flatten ∧
    ∃ after lines, SeenLines fragments.flatten lines ∧
      Returns (fun fuel => iniLoad (fun _ => .ok ()) collect fuel
        (ioReadOpen 8 false [holdNew] fragments) []) (after, iniLines (fun _ => .ok ()) collect [] lines) := by
  have honoured : ∀ spec ∈ [(.inOut id, holdNew)], Honoured spec := by
    intro spec mem
    obtain rfl := List.mem_singleton.mp mem
    exact holdNew_honours
  have fits : LinesFit 8 [91, 97, 93, 10, 98, 61, 49, 10, 99, 61, 49] := by decide
  refine ⟨_, rfl, by decide, honoured, fits, ?_⟩
  refine @iniLoad_lines _ _ _ _ _ 8 false [[91, 97], [93, 10, 98, 61, 49, 10, 99, 61, 49]] []
    (by decide) honoured fits ?_
  intro state before
  rcases before_round 20 rfl before with rfl | before
  · rintro - ⟨-, isSame, -⟩
    cases isSame
  · rcases before_round 20 rfl before with rfl | before
    · intro noLinefeed
      exact absurd noLinefeed (by decide)
    · obtain rfl := before_last 20 rfl before
      rintro - - rest pending
      exact oneLine_of_unterminated 20 pending rfl

/-- The end is found with two lines in the line buffer, and the second is lost. -/
theorem iniLoad_loses : ∃ text, text = [91, 97, 93, 10, 98, 61, 49, 10, 99, 61, 49, 10, 100, 61, 49, 10] ∧
    (∀ spec ∈ [(.inOut id, holdNew)], Honoured spec) ∧ LinesFit 8 text ∧
    ¬ ∃ after lines, SeenLines text lines ∧
      Returns (fun fuel => iniLoad (fun _ => .ok ()) collect fuel (ioReadOpen 8 false [holdNew] [text]) [])
        (after, iniLines (fun _ => .ok ()) collect [] lines) := by
  refine ⟨_, rfl, ?_, by decide, ?_⟩
  · intro spec mem
    obtain rfl := List.mem_singleton.mp mem
    exact holdNew_honours
  · rintro ⟨after, lines, seen, returns⟩
    obtain ⟨last, run⟩ : ∃ last, iniLoad (fun _ => .ok ()) collect 20 (ioReadOpen 8 false [holdNew]
        [[91, 97, 93, 10, 98, 61, 49, 10, 99, 61, 49, 10, 100, 61, 49, 10]]) [] =
        .ok (last, .ok [(['a'], ['b'], ['1']), (['a'], ['c'], ['1'])]) := ⟨_, rfl⟩
    have same := congrArg Prod.snd (returns.unique ((iniLoad_mono _ _).returns run))
    have isSplit : List.splitOn linefeed [91, 97, 93, 10, 98, 61, 49, 10, 99, 61, 49, 10, 100, 61, 49, 10] =
        [[91, 97, 93], [98, 61, 49], [99, 61, 49], [100, 61, 49]] ++ [[]] := by decide
    have all : iniLines (fun _ => .ok ()) collect [] [[91, 97, 93], [98, 61, 49], [99, 61, 49], [100, 61, 49]] =
        .ok [(['a'], ['b'], ['1']), (['a'], ['c'], ['1']), (['a'], ['d'], ['1'])] := rfl
    rcases seen with whole | butLast
    · rw [isSplit] at whole
      subst whole
      cases same
    · rw [isSplit] at butLast
      obtain rfl := List.append_cancel_right butLast
      rw [all] at same
      cases same

end Hold

end IniLoad
