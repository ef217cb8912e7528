import Backrest.ReadRun

/-!
# The three ways to read

`ioRead` and `ioReadSmall` return the next bytes of the text that is left, and
`ioReadLineParam` the next line. `ioReadSmall` waits for a full buffer: when less text is
left than was asked for it reads forever.
-/

namespace ReadStream

open Text FuelLoop StreamFilter FilterGroup

section Calls
variable {specs : List (FilterSpec × IoFilter)} {stream rest : Bytes} {this : IoRead} {buffer : Buffer}

theorem take_drop_of_split {part more : Bytes} {size : Nat} (split : rest = part ++ more)
    (ended : part.length = size ∨ part.length ≤ size ∧ more = []) :
    rest.take size = part ∧ rest.drop size = more := by
  subst split
  rcases ended with rfl | ⟨short, rfl⟩
  · exact ⟨List.take_left, List.drop_left⟩
  · rw [List.append_nil]
    exact ⟨List.take_of_length_le short, List.drop_of_length_le short⟩

theorem copyOutput_spec (buffer : Buffer) (pending : Pending specs stream this rest) :
    ∃ copied rest', (copyOutput this buffer).2 = ⟨buffer.used ++ copied, buffer.size⟩ ∧
      copied.length = min (retained this).length (bufRemains buffer) ∧ rest = copied ++ rest' ∧
      Pending specs stream (copyOutput this buffer).1 rest' ∧
      (copied.length = bufRemains buffer ∨ retained (copyOutput this buffer).1 = []) := by
  obtain ⟨⟨tail, ahead, rfl⟩, fits⟩ := pending
  have size : (retained this).length = this.output.length - this.outputPos := List.length_drop
  have unused : retained (copyOutput this buffer).1 =
      (retained this).drop (min (retained this).length (bufRemains buffer)) := by
    rw [size]
    simp only [retained, copyOutput, List.drop_drop]
  refine ⟨(retained this).take (min (retained this).length (bufRemains buffer)),
    (retained this).drop (min (retained this).length (bufRemains buffer)) ++ tail, ?_, ?_, ?_,
    ⟨⟨tail, ahead.withOutput _ _, ?_⟩, fits⟩, ?_⟩
  · rw [size]
    rfl
  · rw [List.length_take]
    omega
  · rw [← List.append_assoc, List.take_append_drop]
  · rw [unused]
  · by_cases all : (retained this).length ≤ bufRemains buffer
    · right
      rw [unused, Nat.min_eq_left all, List.drop_length]
    · left
      rw [List.length_take]
      omega

theorem SameOutput.retained {after : IoRead} (same : SameOutput this after) :
    ReadStream.retained after = ReadStream.retained this := by
  rw [ReadStream.retained, ReadStream.retained, same.output, same.outputPos]

theorem ioReadInternal_pending (pending : Pending specs stream this rest)
    (direct : bufRemains buffer = 0 ∨ retained this = []) :
    ∃ after, Returns (fun fuel => ioReadInternal fuel this buffer true) after ∧
      after.2 = ⟨buffer.used ++ rest.take (bufRemains buffer), buffer.size⟩ ∧
      Pending specs stream after.1 (rest.drop (bufRemains buffer)) ∧ SameOutput this after.1 ∧
      (rest.length < bufRemains buffer → after.1.eofAll = true) := by
  obtain ⟨⟨tail, ahead, isRest⟩, fits⟩ := pending
  obtain ⟨after, written, tail', returns, isWritten, short, isTail, ahead', same, ended, -⟩ :=
    ioReadInternal_spec buffer true ahead
  have isFull : bufFull after.2 = true → written.length = bufRemains buffer := by
    intro isFull
    have remains := bufRemains_append buffer short
    rw [isWritten, bufFull, decide_eq_true_eq] at isFull
    omega
  have parts : rest.take (bufRemains buffer) = written ∧
      rest.drop (bufRemains buffer) = retained this ++ tail' := by
    rcases direct with none_ | empty
    · obtain rfl : written = [] := List.eq_nil_of_length_eq_zero (by omega)
      rw [none_, isRest, isTail]
      exact ⟨rfl, rfl⟩
    · rw [empty, List.nil_append] at isRest ⊢
      apply take_drop_of_split (isRest.trans isTail)
      rcases ended with isEof | full | ⟨notBlock, -⟩
      · exact .inr ⟨short, ahead'.eof isEof⟩
      · exact .inl (isFull full)
      · cases notBlock
  refine ⟨after, returns, by rw [isWritten, parts.1], ⟨⟨tail', ahead', ?_⟩, ?_⟩, same, fun less => ?_⟩
  · rw [parts.2, same.retained]
  · rw [same.output, same.bufferSize]
    exact fits
  · rcases ended with isEof | full | ⟨notBlock, -⟩
    · exact isEof
    · have taken := congrArg List.length parts.1
      rw [List.length_take, isFull full] at taken
      omega
    · cases notBlock

theorem ioRead_spec (pending : Pending specs stream this rest) (buffer : Buffer) :
    ∃ after, Returns (fun fuel => ioRead fuel this buffer) after ∧
      after.2 = ⟨buffer.used ++ rest.take (bufRemains buffer), buffer.size⟩ ∧
      Pending specs stream after.1 (rest.drop (bufRemains buffer)) ∧
      after.1.bufferSize = this.bufferSize ∧ after.1.output = this.output ∧
      (rest.length < bufRemains buffer → after.1.eofAll = true) := by
  obtain ⟨copied, rest', isCopied, size, rfl, pending', used⟩ := copyOutput_spec buffer pending
  have short : copied.length ≤ bufRemains buffer := by omega
  have remains := bufRemains_append buffer short
  rw [← isCopied] at remains
  have direct : bufRemains (copyOutput this buffer).2 = 0 ∨ retained (copyOutput this buffer).1 = [] :=
    used.imp (fun all => by omega) id
  obtain ⟨after, returns, isAfter, pending'', same, isEof⟩ := ioReadInternal_pending pending' direct
  have split : bufRemains buffer = copied.length + bufRemains (copyOutput this buffer).2 := by omega
  refine ⟨after, returns, ?_, ?_, same.bufferSize, same.output, fun less => isEof ?_⟩
  · rw [isAfter, split, List.take_length_add_append, isCopied, List.append_assoc]
  · rw [split, List.drop_length_add_append]
    exact pending''
  · rw [List.length_append] at less
    omega

/-! ## Small reads -/

/-- A line buffer that is read to finds the end only without data, unless the group was finishing,
and the group asks for the same input only when it is full. -/
def LineEnd (this after : IoRead) (output : Bytes) : Prop :=
  (after.eofAll = true → retained after = output ∨ Finishing this ⟨output, this.bufferSize⟩) ∧
  (after.filterGroup.inputSame = true → (retained after).length = this.bufferSize)

theorem readOutput_spec {tail output : Bytes} (ahead : Ahead specs stream this tail)
    (fits : output.length ≤ this.bufferSize) :
    ∃ after written tail', Returns (fun fuel => readOutput fuel this output) after ∧
      retained after = output ++ written ∧ tail = written ++ tail' ∧
      Ahead specs stream after tail' ∧ after.output.length ≤ after.bufferSize ∧
      after.bufferSize = this.bufferSize ∧
      (after.eofAll = true ∨ output.length = this.bufferSize ∨ written ≠ []) ∧
      (this.eofAll = false → LineEnd this after output) := by
  obtain ⟨⟨that, buffer⟩, written, tail', returns, isWritten, short, isTail, ahead', same, ended, found⟩ :=
    ioReadInternal_spec ⟨output, this.bufferSize⟩ false (ahead.withOutput output 0)
  dsimp only at isWritten
  subst isWritten
  have size : bufRemains ⟨output, this.bufferSize⟩ = this.bufferSize - output.length := rfl
  have position : that.outputPos = 0 := same.outputPos
  have isRetained : retained { that with output := output ++ written } = output ++ written := by
    rw [retained, position]
    rfl
  have full : bufFull ⟨output ++ written, this.bufferSize⟩ = true →
      (output ++ written).length = this.bufferSize := by
    intro isFull
    rw [bufFull, decide_eq_true_eq, bufRemains] at isFull
    dsimp only at isFull
    rw [List.length_append] at isFull ⊢
    omega
  refine ⟨{ that with output := output ++ written }, written, tail',
    returns.bind (.of_eq fun _ => rfl), isRetained, isTail, ahead'.withOutput _ _, ?_, same.bufferSize,
    ?_, fun notEof => ?_⟩
  · rw [List.length_append]
    have sameSize : that.bufferSize = this.bufferSize := same.bufferSize
    dsimp only
    omega
  · rcases ended with isEof | isFull | ⟨-, more⟩
    · exact .inl isEof
    · have whole := full isFull
      rw [List.length_append] at whole
      by_cases isNil : written = []
      · rw [isNil, List.length_nil] at whole
        exact .inr (.inl (by omega))
      · exact .inr (.inr isNil)
    · right
      right
      rintro rfl
      rw [List.append_nil] at more
      exact absurd more (lt_irrefl _)
  · have notEof' : ¬ this.eofAll = true := by simp [notEof]
    constructor
    · intro isEof
      rcases found.eof isEof with isBlock | little | ⟨isEof', -⟩ | finishing
      · cases isBlock
      · left
        rw [List.length_append] at little
        dsimp only at little
        obtain rfl : written = [] := List.eq_nil_of_length_eq_zero (by omega)
        rw [isRetained, List.append_nil]
      · exact absurd isEof' notEof'
      · exact .inr finishing
    · intro isSame
      rw [isRetained]
      rcases found.same isSame with isFull | ⟨isEof', -⟩
      · exact full isFull
      · exact absurd isEof' notEof'

theorem smallEnd_eq (state : IoRead × Buffer) :
    smallEnd state = .ok (if bufFull state.2 then .inr state else .inl state) :=
  (apply_ite Outcome.ok _ _ _).symm

/-- Nothing more can come. -/
def Settled (this : IoRead) : Prop := this.eofAll = true ∧ retained this = []

theorem ioReadInternal_eof (isEof : this.eofAll = true) (fuel : Nat) (block : Bool) :
    ioReadInternal (fuel + 1) this buffer block = .ok (this, buffer) := by
  have stops : ioReadInternalRound block buffer.used.length (fuel + 1) (this, buffer) =
      .ok (.inr (this, buffer)) :=
    if_pos (by simp [ioReadEof, isEof])
  rw [ioReadInternal, loop, stops]
  rfl

/-- The loop goes on although nothing can come. -/
theorem settled_round (settled : Settled this) (notFull : bufFull buffer = false) (fuel : Nat) :
    ioReadSmallRound fuel (this, buffer) = .running ∨
      ∃ after, ioReadSmallRound fuel (this, buffer) = .ok (.inl after) ∧
        Settled after.1 ∧ bufFull after.2 = false := by
  obtain ⟨isEof, empty⟩ := settled
  have size : this.output.length - this.outputPos = 0 := by
    rw [← List.length_drop]
    exact congrArg List.length empty
  have copied : copyOutput this buffer = (this, buffer) := by
    simp only [copyOutput, size, Nat.zero_min, List.take_zero, List.append_nil, Nat.add_zero]
  cases fuel with
  | zero =>
    left
    simp only [ioReadSmallRound, copied, notFull, Bool.false_eq_true, if_false]
    split <;> rfl
  | succ fuel =>
    right
    by_cases large : bufRemains buffer ≥ this.bufferSize
    · refine ⟨(this, buffer), ?_, ⟨isEof, empty⟩, notFull⟩
      simp only [ioReadSmallRound, copied, notFull, Bool.false_eq_true, if_false, if_pos large,
        ioReadInternal_eof isEof, Outcome.ok_bind, smallEnd]
    · refine ⟨({ this with output := [], outputPos := 0 }, buffer), ?_, ⟨isEof, rfl⟩, notFull⟩
      have reread : readOutput (fuel + 1) this [] = .ok { this with output := [], outputPos := 0 } := by
        have internal := @ioReadInternal_eof { this with output := [], outputPos := 0 }
          ⟨[], this.bufferSize⟩ isEof fuel false
        rw [readOutput, internal]
        rfl
      simp only [ioReadSmallRound, copied, notFull, Bool.false_eq_true, if_false, if_neg large, reread,
        Outcome.ok_bind, smallEnd]

/-- One round gives the next bytes, or gets some for the next round, or nothing can come. -/
theorem smallRound_spec (pending : Pending specs stream this rest) (buffer : Buffer) :
    ∃ after part rest', Returns (fun fuel => ioReadSmallRound fuel (this, buffer))
        (if bufFull after.2 then .inr after else .inl after) ∧
      after.2 = ⟨buffer.used ++ part, buffer.size⟩ ∧ part.length ≤ bufRemains buffer ∧
      rest = part ++ rest' ∧ Pending specs stream after.1 rest' ∧
      after.1.bufferSize = this.bufferSize ∧
      (bufFull after.2 = true ∨ part ≠ [] ∨ retained this = [] ∧ retained after.1 ≠ [] ∨
        Settled after.1) := by
  obtain ⟨copied, rest', isCopied, size, rfl, pending', used⟩ := copyOutput_spec buffer pending
  have short : copied.length ≤ bufRemains buffer := by omega
  have remains := bufRemains_append buffer short
  rw [← isCopied] at remains
  have sameSize : (copyOutput this buffer).1.bufferSize = this.bufferSize := rfl
  generalize isThat : copyOutput this buffer = that at *
  cases isFull : bufFull that.2 with
  | true =>
    refine ⟨that, copied, rest', .of_eq fun fuel => ?_, isCopied, short, rfl, pending', sameSize,
      .inl isFull⟩
    rw [ioReadSmallRound, isThat, if_pos isFull, smallEnd_eq]
  | false =>
    have room := bufFull_eq_false.mp isFull
    have empty : retained that.1 = [] := used.resolve_left (by omega)
    by_cases large : bufRemains that.2 ≥ that.1.bufferSize
    · obtain ⟨after, returns, isAfter, pending'', same, isEof⟩ :=
        ioReadInternal_pending pending' (.inr empty)
      refine ⟨after, copied ++ rest'.take (bufRemains that.2), rest'.drop (bufRemains that.2), ?_, ?_,
        ?_, ?_, pending'', same.bufferSize.trans sameSize, ?_⟩
      · have round : ∀ fuel, ioReadSmallRound fuel (this, buffer) =
            (ioReadInternal fuel that.1 that.2 true).bind smallEnd := by
          intro fuel
          rw [ioReadSmallRound, isThat, if_neg (by simp [isFull]), if_pos large]
        simp only [round]
        exact returns.bind (.of_eq fun _ => smallEnd_eq after)
      · rw [isAfter, isCopied, List.append_assoc]
      · rw [List.length_append, List.length_take]
        omega
      · rw [List.append_assoc, List.take_append_drop]
      · cases rest' with
        | nil =>
          have ended := isEof room
          right
          right
          right
          refine ⟨ended, ?_⟩
          rw [List.drop_nil] at pending''
          exact (pending''.eof ended).symm
        | cons b rest' =>
          right
          left
          intro isNil
          have noBytes := congrArg List.length isNil
          simp only [List.length_append, List.length_take, List.length_cons, List.length_nil] at noBytes
          omega
    · obtain ⟨⟨tail, ahead, rfl⟩, fits⟩ := pending'
      obtain ⟨after, written, tail', returns, isRetained, rfl, ahead', fits', sameSize', ended, -⟩ :=
        @readOutput_spec _ _ _ _ [] ahead (Nat.zero_le _)
      refine ⟨(after, that.2), copied, retained that.1 ++ (written ++ tail'), ?_, isCopied, short, rfl,
        ⟨⟨tail', ahead', ?_⟩, fits'⟩, sameSize'.trans sameSize, ?_⟩
      · have round : ∀ fuel, ioReadSmallRound fuel (this, buffer) =
            (readOutput fuel that.1 []).bind fun this => smallEnd (this, that.2) := by
          intro fuel
          rw [ioReadSmallRound, isThat, if_neg (by simp [isFull]), if_neg large]
        simp only [round]
        exact returns.bind (.of_eq fun _ => smallEnd_eq (after, that.2))
      · rw [empty, isRetained, List.nil_append, List.nil_append]
      · rw [List.nil_append] at isRetained
        by_cases isNil : written = []
        · rw [isNil] at isRetained
          rcases ended with isEof | noSize | more
          · exact .inr (.inr (.inr ⟨isEof, isRetained⟩))
          · have := ahead.positive
            rw [List.length_nil] at noSize
            omega
          · exact absurd isNil more
        · by_cases nothing : copied = []
          · right
            right
            left
            refine ⟨?_, isRetained ▸ isNil⟩
            rw [nothing, List.length_nil] at size
            exact List.eq_nil_of_length_eq_zero (by omega)
          · exact .inr (.inl nothing)

theorem smallRounds_spec (pending : Pending specs stream this rest) (buffer : Buffer) :
    (bufRemains buffer ≤ rest.length ∧ ∃ after, LoopReturns ioReadSmallRound (this, buffer) after ∧
      after.2 = ⟨buffer.used ++ rest.take (bufRemains buffer), buffer.size⟩ ∧
      Pending specs stream after.1 (rest.drop (bufRemains buffer)) ∧
      after.1.bufferSize = this.bufferSize) ∨
    (rest.length < bufRemains buffer ∧ LoopHangs ioReadSmallRound (this, buffer)) := by
  -- A round without data is followed by one that uses what it got.
  induction measure : 2 * bufRemains buffer + (if retained this = [] then 1 else 0)
    using Nat.strongRecOn generalizing this buffer rest with
  | ind measure' ih =>
    subst measure
    obtain ⟨⟨that, buffer'⟩, part, rest', returns, isPart, short, rfl, pending', sameSize, progress⟩ :=
      smallRound_spec pending buffer
    dsimp only at isPart returns pending' sameSize progress
    have remains := bufRemains_append buffer short
    rw [← isPart] at remains
    cases isFull : bufFull buffer' with
    | true =>
      rw [isFull, if_pos rfl] at returns
      have exact_ : part.length = bufRemains buffer := by
        rw [bufFull, decide_eq_true_eq] at isFull
        omega
      left
      refine ⟨by rw [List.length_append]; omega, (that, buffer'), .stop returns, ?_, ?_, sameSize⟩
      · rw [← exact_, List.take_left, isPart]
      · rw [← exact_, List.drop_left]
        exact pending'
    | false =>
      rw [isFull, if_neg (by simp)] at returns
      have room := bufFull_eq_false.mp isFull
      by_cases settled : Settled that
      · right
        have noMore : rest' = [] := (pending'.eof settled.1).trans settled.2
        constructor
        · rw [noMore, List.append_nil]
          omega
        · exact (LoopHangs.stay (fun fuel s (isP : Settled s.1 ∧ bufFull s.2 = false) =>
            settled_round isP.1 isP.2 fuel) ⟨settled, isFull⟩).next returns
      · have less : 2 * bufRemains buffer' + (if retained that = [] then 1 else 0) <
            2 * bufRemains buffer + (if retained this = [] then 1 else 0) := by
          rcases progress with full | some_ | ⟨empty, got⟩ | settled'
          · rw [isFull] at full
            cases full
          · have := List.length_pos_iff.mpr some_
            split <;> split <;> omega
          · rw [if_pos empty, if_neg got]
            omega
          · exact absurd settled' settled
        have split : bufRemains buffer = part.length + bufRemains buffer' := by omega
        rcases ih _ less pending' buffer' rfl with ⟨enough, after, loops, isAfter, pending'', sameSize'⟩ |
          ⟨few, hangs⟩
        · left
          refine ⟨by rw [List.length_append]; omega, after, loops.next returns, ?_, ?_,
            sameSize'.trans sameSize⟩
          · rw [isAfter, split, List.take_length_add_append, isPart, List.append_assoc]
          · rw [split, List.drop_length_add_append]
            exact pending''
        · right
          exact ⟨by rw [List.length_append]; omega, hangs.next returns⟩

/-! ## Lines -/

/-- What a line read returns for the text that is left, and what is left after it. A line without
a linefeed is not taken from the internal output buffer. -/
def lineAnswer (bufferSize : Nat) (allowEof : Bool) (rest : Bytes) : Except Error Line × Bytes :=
  match (rest.take bufferSize).idxOf? linefeed with
  | some size => (.ok ⟨rest.take size, true⟩, rest.drop (size + 1))
  | none =>
    if bufferSize ≤ rest.length then (.error (lineError bufferSize), rest)
    else if allowEof then (.ok ⟨rest, false⟩, rest)
    else (.error lineEofError, rest)

theorem idxOf_linefeed {line : Bytes} (noLinefeed : linefeed ∉ line) (more : Bytes) :
    (line ++ linefeed :: more).idxOf? linefeed = some line.length := by
  induction line with
  | nil => rfl
  | cons b line ih =>
    rw [List.mem_cons, not_or] at noLinefeed
    rw [List.cons_append, List.idxOf?_cons, ih noLinefeed.2, beq_eq_false_iff_ne.mpr (Ne.symm noLinefeed.1)]
    rfl

theorem lineAnswer_line {bufferSize : Nat} {line : Bytes} (allowEof : Bool) (noLinefeed : linefeed ∉ line)
    (short : line.length < bufferSize) (more : Bytes) :
    lineAnswer bufferSize allowEof (line ++ linefeed :: more) = (.ok ⟨line, true⟩, more) := by
  have start : (line ++ linefeed :: more).take bufferSize =
      line ++ linefeed :: more.take (bufferSize - line.length - 1) := by
    obtain ⟨n, isSize⟩ : ∃ n, bufferSize = line.length + (n + 1) := ⟨bufferSize - line.length - 1, by omega⟩
    have isN : bufferSize - line.length - 1 = n := by omega
    rw [isN, isSize, List.take_length_add_append, List.take_succ_cons]
  rw [lineAnswer, start, idxOf_linefeed noLinefeed]
  have after : (line ++ linefeed :: more).drop (line.length + 1) = more := by
    rw [List.drop_length_add_append]
    rfl
  dsimp only
  rw [List.take_left, after]

theorem lineAnswer_none {bufferSize : Nat} {allowEof : Bool}
    (noLinefeed : linefeed ∉ rest.take bufferSize) :
    lineAnswer bufferSize allowEof rest =
      if bufferSize ≤ rest.length then (.error (lineError bufferSize), rest)
      else if allowEof then (.ok ⟨rest, false⟩, rest) else (.error lineEofError, rest) := by
  rw [lineAnswer, List.idxOf?_eq_none_iff.mpr noLinefeed]

/-- A line in the internal output buffer is taken from it. -/
theorem lineRound_found {line more : Bytes} (noLinefeed : linefeed ∉ line)
    (isLine : retained this = line ++ linefeed :: more) (allowEof : Bool) (fuel : Nat) :
    ioReadLineRound allowEof fuel this =
      .ok (.inr ({ this with outputPos := this.outputPos + line.length + 1 }, .ok ⟨line, true⟩)) := by
  have position : (this.output.drop this.outputPos).idxOf? linefeed = some line.length := by
    change (retained this).idxOf? linefeed = _
    rw [isLine, idxOf_linefeed noLinefeed]
  have text : (this.output.drop this.outputPos).take line.length = line := by
    change (retained this).take line.length = line
    rw [isLine, List.take_left]
  simp only [ioReadLineRound, position, text]

theorem retained_after {line more : Bytes} (isLine : retained this = line ++ linefeed :: more) :
    retained { this with outputPos := this.outputPos + line.length + 1 } = more := by
  change this.output.drop (this.outputPos + line.length + 1) = more
  rw [Nat.add_assoc, ← List.drop_drop]
  change (retained this).drop (line.length + 1) = more
  rw [isLine, List.drop_length_add_append]
  rfl

/-- Only what was not used yet is kept in the internal output buffer. -/
def trimmed (this : IoRead) : IoRead := { this with output := retained this, outputPos := 0 }

theorem lineRound_none (noLinefeed : linefeed ∉ retained this) (allowEof : Bool) (fuel : Nat) :
    ioReadLineRound allowEof fuel this =
      if bufFull ⟨retained this, this.bufferSize⟩ then
        .ok (.inr (trimmed this, .error (lineError (retained this).length)))
      else if ioReadEof this then
        if allowEof then .ok (.inr (trimmed this, .ok ⟨retained this, false⟩))
        else .ok (.inr (trimmed this, .error lineEofError))
      else (readOutput fuel (trimmed this) (retained this)).bind fun this => .ok (.inl this) := by
  have position : (this.output.drop this.outputPos).idxOf? linefeed = none :=
    List.idxOf?_eq_none_iff.mpr noLinefeed
  simp only [ioReadLineRound, position]
  rfl

theorem Pending.short (pending : Pending specs stream this rest) :
    (retained this).length ≤ this.bufferSize := by
  have := pending.fits
  rw [retained, List.length_drop]
  omega

theorem Pending.trimmed (pending : Pending specs stream this rest) :
    Pending specs stream (ReadStream.trimmed this) rest := by
  have short := pending.short
  obtain ⟨⟨tail, ahead, rfl⟩, -⟩ := pending
  exact ⟨⟨tail, ahead.withOutput _ _, rfl⟩, short⟩

theorem Pending.readOutput (pending : Pending specs stream this rest)
    (notFull : (retained this).length ≠ this.bufferSize) :
    ∃ after, Returns (fun fuel => ReadStream.readOutput fuel (ReadStream.trimmed this) (retained this)) after ∧
      Pending specs stream after rest ∧ after.bufferSize = this.bufferSize ∧
      (after.eofAll = true ∨ (retained this).length < (retained after).length) ∧
      (this.eofAll = false → LineEnd this after (retained this)) := by
  have short := pending.short
  obtain ⟨⟨tail, ahead, rfl⟩, -⟩ := pending
  obtain ⟨after, written, tail', returns, isRetained, rfl, ahead', fits', sameSize, ended, lineEnd⟩ :=
    @readOutput_spec _ _ (ReadStream.trimmed this) _ (retained this) (ahead.withOutput _ _) short
  refine ⟨after, returns, ⟨⟨tail', ahead', ?_⟩, fits'⟩, sameSize, ?_, lineEnd⟩
  · rw [isRetained, List.append_assoc]
  · rcases ended with isEof | full | more
    · exact .inl isEof
    · exact absurd full notFull
    · have := List.length_pos_iff.mpr more
      right
      rw [isRetained, List.length_append]
      omega

/-- A line without a linefeed is found at the end, and the end is found before a line with one only
when the group was finishing. -/
def LineEof (this : IoRead) (after : IoRead × Except Error Line) : Prop :=
  ∀ line, after.2 = .ok line →
    if line.terminated then
      after.1.eofAll = true → this.eofAll = true ∨
        linefeed ∉ retained this ∧ Finishing this ⟨retained this, this.bufferSize⟩
    else after.1.eofAll = true

/-- One round finds the line, or fails, or gets some more for the next round. -/
theorem lineRound_spec (pending : Pending specs stream this rest) (allowEof : Bool) :
    (∃ after, Returns (fun fuel => ioReadLineRound allowEof fuel this) (.inr after) ∧
      after.2 = (lineAnswer this.bufferSize allowEof rest).1 ∧
      Pending specs stream after.1 (lineAnswer this.bufferSize allowEof rest).2 ∧
      after.1.bufferSize = this.bufferSize ∧ LineEof this after) ∨
    (∃ after, Returns (fun fuel => ioReadLineRound allowEof fuel this) (.inl after) ∧
      Pending specs stream after rest ∧ after.bufferSize = this.bufferSize ∧ this.eofAll = false ∧
      (after.eofAll = true ∨ (retained this).length < (retained after).length) ∧
      linefeed ∉ retained this ∧ LineEnd this after (retained this)) := by
  have short := pending.short
  by_cases found : linefeed ∈ retained this
  · left
    obtain ⟨line, more, isLine, noLinefeed⟩ := List.eq_append_cons_of_mem found
    obtain ⟨⟨tail, ahead, rfl⟩, fits⟩ := pending
    have size : line.length < this.bufferSize := by
      rw [isLine, List.length_append, List.length_cons] at short
      omega
    rw [isLine, List.append_assoc, List.cons_append, lineAnswer_line allowEof noLinefeed size]
    refine ⟨_, .of_eq (lineRound_found noLinefeed isLine allowEof), rfl,
      ⟨⟨tail, ahead.withOutput _ _, ?_⟩, fits⟩, rfl, ?_⟩
    · rw [retained_after isLine]
    · intro _ isOk
      cases isOk
      exact fun isEof => .inl isEof
  · have round := lineRound_none found allowEof
    by_cases isFull : (retained this).length = this.bufferSize
    · left
      have full : bufFull ⟨retained this, this.bufferSize⟩ = true := by
        rw [bufFull, decide_eq_true_eq, bufRemains]
        dsimp only
        omega
      simp only [full, if_true] at round
      have trimmed := pending.trimmed
      obtain ⟨⟨tail, ahead, rfl⟩, fits⟩ := pending
      have start : (retained this ++ tail).take this.bufferSize = retained this := by
        rw [← isFull, List.take_left]
      have large : this.bufferSize ≤ (retained this ++ tail).length := by
        rw [List.length_append]
        omega
      rw [lineAnswer_none (by rw [start]; exact found), if_pos large]
      refine ⟨_, .of_eq round, by rw [isFull], trimmed, rfl, ?_⟩
      intro _ isOk
      cases isOk
    · have notFull : bufFull ⟨retained this, this.bufferSize⟩ = false := by
        rw [bufFull, decide_eq_false_iff_not, bufRemains]
        dsimp only
        omega
      simp only [notFull, Bool.false_eq_true, if_false] at round
      cases isEof : this.eofAll with
      | true =>
        left
        have trimmed := pending.trimmed
        obtain rfl := pending.eof isEof
        have start : (retained this).take this.bufferSize = retained this :=
          List.take_of_length_le short
        rw [lineAnswer_none (by rw [start]; exact found), if_neg (by omega)]
        simp only [ioReadEof, isEof, if_true] at round
        cases allowEof with
        | true =>
          refine ⟨_, .of_eq round, rfl, trimmed, rfl, ?_⟩
          intro _ isOk
          cases isOk
          exact isEof
        | false =>
          refine ⟨_, .of_eq round, rfl, trimmed, rfl, ?_⟩
          intro _ isOk
          cases isOk
      | false =>
        right
        obtain ⟨after, returns, pending', sameSize, progress, lineEnd⟩ := pending.readOutput isFull
        refine ⟨after, ?_, pending', sameSize, rfl, progress, found, lineEnd isEof⟩
        simp only [round, ioReadEof, isEof, Bool.false_eq_true, if_false]
        exact returns.bind (.of_eq fun _ => rfl)

theorem LineEof.next {next : IoRead} {after : IoRead × Except Error Line} {allowEof : Bool}
    (pending : Pending specs stream next rest) (sameSize : next.bufferSize = this.bufferSize)
    (noLinefeed : linefeed ∉ retained this) (lineEnd : LineEnd this next (retained this))
    (isLine : after.2 = (lineAnswer next.bufferSize allowEof rest).1) (later : LineEof next after) :
    LineEof this after := by
  intro line isOk
  have ended := later line isOk
  cases terminated : line.terminated with
  | false =>
    rw [terminated] at ended
    exact ended
  | true =>
    rw [terminated, if_pos rfl] at ended
    rw [if_pos rfl]
    intro isEof
    rcases ended isEof with nextEof | ⟨-, notFull, isSame, -⟩
    · rcases lineEnd.1 nextEof with same | finishing
      · obtain rfl := pending.eof nextEof
        rw [same] at isLine
        have noneThere : linefeed ∉ (retained this).take next.bufferSize :=
          fun mem => noLinefeed (List.mem_of_mem_take mem)
        rw [lineAnswer_none noneThere, isOk] at isLine
        split at isLine
        · cases isLine
        · split at isLine
          · cases isLine
            cases terminated
          · cases isLine
      · exact .inr ⟨noLinefeed, finishing⟩
    · have full := lineEnd.2 isSame
      rw [bufFull, decide_eq_false_iff_not, bufRemains] at notFull
      dsimp only at notFull
      omega

/-- The next line is found, however many reads it takes. -/
theorem ioReadLineParam_spec (pending : Pending specs stream this rest) (allowEof : Bool) :
    ∃ after, Returns (fun fuel => ioReadLineParam fuel this allowEof) after ∧
      after.2 = (lineAnswer this.bufferSize allowEof rest).1 ∧
      Pending specs stream after.1 (lineAnswer this.bufferSize allowEof rest).2 ∧
      after.1.bufferSize = this.bufferSize ∧ LineEof this after := by
  suffices loops : ∃ after, LoopReturns (ioReadLineRound allowEof) this after ∧
      after.2 = (lineAnswer this.bufferSize allowEof rest).1 ∧
      Pending specs stream after.1 (lineAnswer this.bufferSize allowEof rest).2 ∧
      after.1.bufferSize = this.bufferSize ∧ LineEof this after by
    obtain ⟨after, loops, isAfter⟩ := loops
    exact ⟨after, loops.returns, isAfter⟩
  induction measure : if this.eofAll then 0 else this.bufferSize + 1 - (retained this).length
    using Nat.strongRecOn generalizing this with
  | ind measure' ih =>
    subst measure
    rcases lineRound_spec pending allowEof with ⟨after, stops, isAfter⟩ |
      ⟨next, goesOn, pending', sameSize, notEof, progress, noLinefeed, lineEnd⟩
    · exact ⟨after, .stop stops, isAfter⟩
    · have less : (if next.eofAll then 0 else next.bufferSize + 1 - (retained next).length) <
          if this.eofAll then 0 else this.bufferSize + 1 - (retained this).length := by
        have short := pending.short
        have short' := pending'.short
        rw [notEof, if_neg Bool.false_ne_true]
        rcases progress with isEof | longer
        · rw [isEof, if_pos rfl]
          omega
        · split <;> omega
      obtain ⟨after, loops, isLine, pending'', sameSize', lineEof⟩ := ih _ less pending' rfl
      have lineEof' := lineEof.next pending' sameSize noLinefeed lineEnd isLine
      rw [sameSize] at isLine pending''
      exact ⟨after, loops.next goesOn, isLine, pending'', sameSize'.trans sameSize, lineEof'⟩

end Calls

/-! ## More fuel -/

section Fuel
variable (this : IoRead) (buffer : Buffer)

theorem process_mono : Mono fun fuel => process fuel this buffer := by
  refine .bind (.bind ?_ fun _ => .const _) fun _ => .const _
  exact @Mono.loop _ _ _ (fun _ => processRound this.input) (fun _ => .const _) _

theorem ioReadInternal_mono (block : Bool) : Mono fun fuel => ioReadInternal fuel this buffer block := by
  apply Mono.loop
  rintro ⟨this, buffer⟩
  unfold ioReadInternalRound
  split
  · exact .const _
  · split
    · exact .bind (process_mono _ _) fun _ => .const _
    · refine .bind ?_ fun _ => .const _
      unfold processInput
      split
      · exact .const _
      · exact process_mono _ _

theorem readOutput_mono (output : Bytes) : Mono fun fuel => readOutput fuel this output :=
  .bind (ioReadInternal_mono _ _ _) fun _ => .const _

theorem ioReadLineParam_mono (allowEof : Bool) : Mono fun fuel => ioReadLineParam fuel this allowEof := by
  apply Mono.loop
  intro this
  by_cases found : linefeed ∈ retained this
  · obtain ⟨line, more, isLine, noLinefeed⟩ := List.eq_append_cons_of_mem found
    simp only [lineRound_found noLinefeed isLine]
    exact .const _
  · simp only [lineRound_none found]
    split
    · exact .const _
    · split
      · exact .const _
      · exact .bind (readOutput_mono _ _) fun _ => .const _

end Fuel

end ReadStream
