import Backrest.ReadStream

/-!
# What a read returns

What the filter group has written so far starts what it makes of the whole stream, for
the reads could go on to the end. Every call therefore returns the next bytes of that,
whatever the fragments of the driver are.
-/

namespace ReadStream

open Text FuelLoop StreamFilter FilterGroup

section Advance
variable {specs : List (FilterSpec × IoFilter)} {stream : Bytes} {slot : Slot} {inp out : Bytes}
  {places : List (IoFilter × Slot)} {this : IoRead} {buffer : Buffer}

/-- The input buffer holds what the group may ask for again. -/
def InputAt (this : IoRead) (slot : Slot) : Prop :=
  match this.input with
  | none => slot = .flushing ∧ this.fragments = []
  | some c => slot ≠ .flushing ∧ Again slot (some c)

/-- The group was given `inp` of the stream and has written `out`. -/
structure ReadAt (specs : List (FilterSpec × IoFilter)) (stream : Bytes) (slot : Slot)
    (inp out : Bytes) (places : List (IoFilter × Slot)) (this : IoRead) : Prop where
  group : GroupAt this.bufferSize specs slot inp out places this.filterGroup
  positive : 0 < this.bufferSize
  isStream : stream = inp ++ this.fragments.flatten
  input : InputAt this slot
  eof : this.eofAll = true → this.fragments = [] ∧ this.filterGroup.done = true

theorem ReadAt.done_fragments (at_ : ReadAt specs stream slot inp out places this)
    (isDone : this.filterGroup.done = true) : this.fragments = [] := by
  have isFlushing := at_.group.chain.slot_of_done (at_.group.done_iff.mp isDone)
  have input := at_.input
  unfold InputAt at input
  cases isInput : this.input with
  | none =>
    rw [isInput] at input
    exact input.2
  | some c =>
    rw [isInput] at input
    exact absurd isFlushing input.1

theorem ReadAt.done_out (at_ : ReadAt specs stream slot inp out places this)
    (isDone : this.filterGroup.done = true) : out = compose specs stream := by
  rw [(at_.group.compose isDone).1, at_.isStream, at_.done_fragments isDone, List.flatten_nil,
    List.append_nil]

/-- The reads that are left, with the one that starts the flush. -/
def readsLeft (this : IoRead) : Nat :=
  (this.fragments.map fun fragment => fragment.length + 1).sum + if this.input.isSome then 1 else 0

/-- Only the filter group, the fragments and the input have changed. -/
structure SameOutput (before after : IoRead) : Prop where
  bufferSize : after.bufferSize = before.bufferSize
  block : after.block = before.block
  output : after.output = before.output
  outputPos : after.outputPos = before.outputPos

theorem SameOutput.refl (this : IoRead) : SameOutput this this := ⟨rfl, rfl, rfl, rfl⟩

theorem SameOutput.trans {a b c : IoRead} (one : SameOutput a b) (two : SameOutput b c) :
    SameOutput a c where
  bufferSize := two.bufferSize.trans one.bufferSize
  block := two.block.trans one.block
  output := two.output.trans one.output
  outputPos := two.outputPos.trans one.outputPos

/-- Less is left to do, or everything is done. -/
def Advanced (before after : IoRead) (places places' : List (IoFilter × Slot)) (written : Bytes) : Prop :=
  readsLeft after < readsLeft before ∨
    readsLeft after = readsLeft before ∧ Fewer places' places ∨
    written = [] ∧ after.filterGroup.done = true

/-- A step does not look for the end. The same input is asked for only with a full buffer, and a
group that writes all it can without a flush adds nothing when it is done. -/
structure Unended (specs : List (FilterSpec × IoFilter)) (buffer : Buffer) (after : IoRead × Buffer) :
    Prop where
  notEof : after.1.eofAll = false
  full : after.1.filterGroup.inputSame = true → bufFull after.2 = true
  prompt : Prompt specs → after.1.filterGroup.done = true → after.2 = buffer

/-- A step of the group: more in the buffer and less to do. -/
def Step (specs : List (FilterSpec × IoFilter)) (stream out : Bytes)
    (places : List (IoFilter × Slot)) (this : IoRead) (buffer : Buffer) (after : IoRead × Buffer) : Prop :=
  ∃ written slot' inp' places', after.2 = ⟨buffer.used ++ written, buffer.size⟩ ∧
    written.length ≤ bufRemains buffer ∧
    ReadAt specs stream slot' inp' (out ++ written) places' after.1 ∧ SameOutput this after.1 ∧
    Unended specs buffer after ∧ Advanced this after.1 places places' written

theorem driverRead_flatten (fragments : List Bytes) (room : Nat) :
    (driverRead fragments room).1 ++ (driverRead fragments room).2.flatten = fragments.flatten := by
  fun_cases driverRead fragments room with
  | case1 => rfl
  | case2 fragment rest short => rfl
  | case3 fragment rest long =>
    rw [List.flatten_cons, ← List.append_assoc, List.take_append_drop, List.flatten_cons]

theorem driverRead_less {fragments : List Bytes} (nonempty : fragments ≠ []) {room : Nat}
    (positive : 0 < room) :
    ((driverRead fragments room).2.map fun fragment => fragment.length + 1).sum <
      (fragments.map fun fragment => fragment.length + 1).sum := by
  fun_cases driverRead fragments room with
  | case1 => exact absurd rfl nonempty
  | case2 fragment rest short =>
    rw [List.map_cons, List.sum_cons]
    dsimp only
    omega
  | case3 fragment rest long =>
    rw [List.map_cons, List.sum_cons, List.map_cons, List.sum_cons, List.length_drop]
    omega

theorem process_step (group : GroupAt this.bufferSize specs slot inp out places this.filterGroup)
    (positive : 0 < this.bufferSize) (notEof : this.eofAll = false)
    (isStream : stream = inp ++ given this.filterGroup slot this.input ++ this.fragments.flatten)
    (may : MayPass this.filterGroup slot this.input)
    (flushes : this.input = none →
      this.fragments = [] ∧ (slot = .flushing ∨ this.filterGroup.inputSame = false))
    (reads : this.input ≠ none → slot ≠ .flushing) (room : 0 < bufRemains buffer) :
    ∃ after, Returns (fun fuel => process fuel this buffer) after ∧
      Returns (fun fuel => ioFilterGroupProcess fuel this.filterGroup this.input buffer)
        (after.1.filterGroup, after.2) ∧
      ∃ written slot' inp' places', after.2 = ⟨buffer.used ++ written, buffer.size⟩ ∧
        written.length ≤ bufRemains buffer ∧
        ReadAt specs stream slot' inp' (out ++ written) places' after.1 ∧
        SameOutput this after.1 ∧ Unended specs buffer after ∧ readsLeft after.1 = readsLeft this ∧
        (Fewer places' places ∨ (this.filterGroup.inputSame = false ∧ this.input ≠ none) ∨
          (written = [] ∧ after.1.filterGroup.done = true)) := by
  obtain ⟨⟨group', buffer'⟩, returns, written, slot', places', rfl, fits, at_, again, isFlushing,
    progress⟩ := process_spec group may room
  refine ⟨({ this with filterGroup := group' }, _), returns.bind (.of_eq fun _ => rfl), returns, written,
    slot', _, places', rfl, fits, ⟨at_, positive, isStream, ?_, ?_⟩, ⟨rfl, rfl, rfl, rfl⟩,
    ⟨notEof, returns_full group returns, fun prompt isDone => ?_⟩, rfl, ?_⟩
  · unfold InputAt
    dsimp only
    cases isInput : this.input with
    | none =>
      obtain ⟨ended, start⟩ := flushes isInput
      exact ⟨isFlushing.mpr (start.imp id fun notSame => ⟨notSame, isInput⟩), ended⟩
    | some c =>
      rw [isInput] at again isFlushing
      refine ⟨fun ended => ?_, again⟩
      rcases isFlushing.mp ended with before | ⟨-, isNone⟩
      · exact reads (by simp [isInput]) before
      · cases isNone
  · intro isEof
    rw [notEof] at isEof
    cases isEof
  · rw [prompt.written group at_ isFlushing isDone, List.append_nil]
  · rcases progress with fewer | isNew | ⟨-, isNil, isDone⟩
    · exact .inl fewer
    · exact .inr (.inl isNew)
    · exact .inr (.inr ⟨isNil, isDone⟩)

section Steps
variable (at_ : ReadAt specs stream slot inp out places this)
include at_

/-- Process input buffer again to get more output. -/
theorem step_same (notEof : this.eofAll = false) (isSame : this.filterGroup.inputSame = true)
    (room : 0 < bufRemains buffer) :
    ∃ after, Returns (fun fuel => process fuel this buffer) after ∧
      Returns (fun fuel => ioFilterGroupProcess fuel this.filterGroup this.input buffer)
        (after.1.filterGroup, after.2) ∧
      Step specs stream out places this buffer after := by
  have input := at_.input
  unfold InputAt at input
  have again : Again slot this.input := by
    cases isInput : this.input with
    | none =>
      rw [isInput] at input
      rw [input.1]
      rfl
    | some c =>
      rw [isInput] at input
      exact input.2
  have isStream : stream = inp ++ given this.filterGroup slot this.input ++ this.fragments.flatten := by
    rw [given, if_pos isSame, List.append_nil]
    exact at_.isStream
  have may : MayPass this.filterGroup slot this.input := by
    rw [MayPass, if_pos isSame]
    exact again
  have flushes : this.input = none →
      this.fragments = [] ∧ (slot = .flushing ∨ this.filterGroup.inputSame = false) := by
    intro isNone
    rw [isNone] at input
    exact ⟨input.2, .inl input.1⟩
  have reads : this.input ≠ none → slot ≠ .flushing := by
    intro isSome
    cases isInput : this.input with
    | none => exact absurd isInput isSome
    | some c =>
      rw [isInput] at input
      exact input.1
  obtain ⟨after, returns, called, written, slot', inp', places', isWritten, fits, at', same, unended, left,
    progress⟩ := process_step at_.group at_.positive notEof isStream may flushes reads room
  refine ⟨after, returns, called, written, slot', inp', places', isWritten, fits, at', same, unended, ?_⟩
  rcases progress with fewer | ⟨notSame, -⟩ | ended
  · exact .inr (.inl ⟨left, fewer⟩)
  · rw [isSame] at notSame
    cases notSame
  · exact .inr (.inr ended)

theorem step_flush (notEof : this.eofAll = false) (notSame : this.filterGroup.inputSame = false)
    (ended : this.fragments = []) (room : 0 < bufRemains buffer) :
    ∃ after, Returns (fun fuel => processInput fuel { this with input := none } buffer) after ∧
      Step specs stream out places this buffer after := by
  have isStream : stream = inp ++ given this.filterGroup slot none ++ this.fragments.flatten := by
    rw [given_none, List.append_nil]
    exact at_.isStream
  obtain ⟨after, returns, -, written, slot', inp', places', isWritten, fits, at', same, unended, left,
    progress⟩ :=
    @process_step specs stream slot inp out places { this with input := none } buffer at_.group
      at_.positive notEof isStream (at_.group.mayFlush (.inr notSame))
      (fun _ => ⟨ended, .inr notSame⟩) (fun isSome => absurd rfl isSome) room
  refine ⟨after, ?_, written, slot', inp', places', isWritten, fits, at',
    ⟨same.bufferSize, same.block, same.output, same.outputPos⟩, unended, ?_⟩
  · have isProcess : (fun fuel => processInput fuel { this with input := none } buffer) =
        fun fuel => process fuel { this with input := none } buffer := by
      funext fuel
      exact if_neg nofun
    rw [isProcess]
    exact returns
  · have fewerReads : readsLeft after.1 < readsLeft this ∨ readsLeft after.1 = readsLeft this := by
      rw [left, readsLeft, readsLeft]
      dsimp only
      cases this.input with
      | none => exact .inr rfl
      | some c => exact .inl (by simp)
    rcases progress with fewer | ⟨-, isSome⟩ | ended'
    · rcases fewerReads with less | same'
      · exact .inl less
      · exact .inr (.inl ⟨same', fewer⟩)
    · exact absurd rfl isSome
    · exact .inr (.inr ended')

theorem step_read (notEof : this.eofAll = false) (notSame : this.filterGroup.inputSame = false)
    (hasInput : this.input.isSome = true) {limit : Nat} (positive : 0 < limit)
    (more : this.fragments ≠ []) (room : 0 < bufRemains buffer) :
    ∃ after, Returns (fun fuel => processInput fuel { this with
        input := some (driverRead this.fragments limit).1,
        fragments := (driverRead this.fragments limit).2 } buffer) after ∧
      Step specs stream out places this buffer after := by
  have isIdle : slot = .idle := by
    have input := at_.input
    unfold InputAt at input
    cases slot with
    | idle => rfl
    | busy c => exact absurd rfl (at_.group.notBusy notSame c)
    | flushing =>
      cases isInput : this.input with
      | none =>
        rw [isInput] at hasInput
        cases hasInput
      | some c =>
        rw [isInput] at input
        exact absurd rfl input.1
  subst isIdle
  have whole := driverRead_flatten this.fragments limit
  have less := driverRead_less more positive
  generalize (driverRead this.fragments limit).1 = c at *
  generalize (driverRead this.fragments limit).2 = rest at *
  have fewerReads : readsLeft { this with input := some c, fragments := rest } < readsLeft this := by
    simp only [readsLeft, hasInput, Option.isSome_some, if_true]
    omega
  by_cases isEmpty : c = []
  · subst isEmpty
    refine ⟨({ this with input := some [], fragments := rest }, buffer), .of_eq fun _ => if_pos rfl,
      [], .idle, inp, places, by simp, Nat.zero_le _, ?_, ⟨rfl, rfl, rfl, rfl⟩,
      ⟨notEof, ?_, fun _ _ => rfl⟩, .inl fewerReads⟩
    · refine ⟨by simpa using at_.group, at_.positive, ?_, ⟨nofun, trivial⟩, ?_⟩
      · rw [at_.isStream, ← whole]
        rfl
      · intro isEof
        rw [notEof] at isEof
        cases isEof
    · intro isSame
      rw [notSame] at isSame
      cases isSame
  · have isGiven : given this.filterGroup .idle (some c) = c := if_neg (by simp [notSame])
    have isStream : stream = inp ++ given this.filterGroup .idle (some c) ++ rest.flatten := by
      rw [isGiven, List.append_assoc, whole]
      exact at_.isStream
    have may : MayPass this.filterGroup .idle (some c) := by
      rw [MayPass, if_neg (by simp [notSame])]
      exact Allowed.input isEmpty
    obtain ⟨after, returns, -, written, slot', inp', places', isWritten, fits, at', same, unended, left, -⟩ :=
      @process_step specs stream .idle inp out places { this with input := some c, fragments := rest }
        buffer at_.group at_.positive notEof isStream may (fun isNone => by cases isNone)
        (fun _ => nofun) room
    refine ⟨after, ?_, written, slot', inp', places', isWritten, fits, at',
      ⟨same.bufferSize, same.block, same.output, same.outputPos⟩, unended,
      .inl (by rw [left]; exact fewerReads)⟩
    have isProcess : (fun fuel => processInput fuel
        { this with input := some c, fragments := rest } buffer) =
        fun fuel => process fuel { this with input := some c, fragments := rest } buffer := by
      funext fuel
      exact if_neg (by simpa using isEmpty)
    rw [isProcess]
    exact returns

theorem step_new (notEof : this.eofAll = false) (notSame : this.filterGroup.inputSame = false)
    (room : 0 < bufRemains buffer) :
    ∃ after, Returns (fun fuel => processInput fuel (readInput this (bufRemains buffer)) buffer) after ∧
      Step specs stream out places this buffer after := by
  have input := at_.input
  unfold InputAt at input
  cases isInput : this.input with
  | none =>
    rw [isInput] at input
    have same : readInput this (bufRemains buffer) = this := by simp only [readInput, isInput]
    have self : ({ this with input := none } : IoRead) = this := by rw [← isInput]
    have flush := step_flush at_ notEof notSame input.2 room
    rw [self] at flush
    rw [same]
    exact flush
  | some c =>
    by_cases ended : this.fragments = []
    · have same : readInput this (bufRemains buffer) = { this with input := none } := by
        simp [readInput, isInput, ioReadEofDriver, ended]
      rw [same]
      exact step_flush at_ notEof notSame ended room
    · have same : readInput this (bufRemains buffer) = { this with
          input := some (driverRead this.fragments (if this.block && decide
            (this.bufferSize > bufRemains buffer) then bufRemains buffer else this.bufferSize)).1,
          fragments := (driverRead this.fragments (if this.block && decide
            (this.bufferSize > bufRemains buffer) then bufRemains buffer else this.bufferSize)).2 } := by
        simp [readInput, isInput, ioReadEofDriver, ended]
      rw [same]
      refine step_read at_ notEof notSame (by simp [isInput]) ?_ ended room
      split
      · exact room
      · exact at_.positive

/-- One call of the group, whether it asked for the same input or not. -/
theorem step_any (notEof : this.eofAll = false)
    (room : 0 < bufRemains buffer) : ∃ after, Step specs stream out places this buffer after := by
  cases isSame : this.filterGroup.inputSame with
  | true =>
    obtain ⟨after, -, -, step⟩ := step_same at_ notEof isSame room
    exact ⟨after, step⟩
  | false =>
    obtain ⟨after, -, step⟩ := step_new at_ notEof isSame room
    exact ⟨after, step⟩

end Steps

def LessLeft : Nat × List (IoFilter × Slot) → Nat × List (IoFilter × Slot) → Prop :=
  Prod.Lex (· < ·) Fewer

theorem lessLeft_wf : WellFounded LessLeft := WellFounded.prod_lex Nat.lt_wfRel.wf fewer_wf

theorem Advanced.lessLeft {after : IoRead} {places' : List (IoFilter × Slot)} {written : Bytes}
    (advanced : Advanced this after places places' written) :
    LessLeft (readsLeft after, places') (readsLeft this, places) ∨
      written = [] ∧ after.filterGroup.done = true := by
  rcases advanced with less | ⟨same, fewer⟩ | ended
  · exact .inl (Prod.Lex.left _ _ less)
  · rw [same]
    exact .inl (Prod.Lex.right _ fewer)
  · exact .inr ended

theorem ReadAt.setEof (eof : Bool) (at_ : ReadAt specs stream slot inp out places this)
    (isEof : eof = true → this.fragments = [] ∧ this.filterGroup.done = true) :
    ReadAt specs stream slot inp out places { this with eofAll := eof } :=
  ⟨at_.group, at_.positive, at_.isStream, at_.input, isEof⟩

theorem ReadAt.out_starts (at_ : ReadAt specs stream slot inp out places this) :
    ∃ tail, compose specs stream = out ++ tail ∧ (this.filterGroup.done = true → tail = []) := by
  obtain ⟨tail, isTail⟩ : ∃ tail, compose specs stream = out ++ tail := by
    have start := at_.setEof false nofun
    generalize isThis : ({ this with eofAll := false } : IoRead) = that at start
    have notEof : that.eofAll = false := by rw [← isThis]
    clear isThis at_
    induction measure : (readsLeft that, places) using lessLeft_wf.induction
      generalizing that slot inp out places with
    | _ left ih =>
      subst measure
      -- One byte is read at a time, as a caller with small buffers would.
      have room : 0 < bufRemains ⟨[], 1⟩ := Nat.one_pos
      obtain ⟨after, written, slot', inp', places', -, -, at', -, -, advanced⟩ :=
        step_any start notEof room
      rcases advanced.lessLeft with less | ⟨-, isDone⟩
      · obtain ⟨tail, isTail⟩ := ih _ less _ (at'.setEof false nofun) rfl rfl
        exact ⟨written ++ tail, by rw [isTail, List.append_assoc]⟩
      · exact ⟨written, (at'.done_out isDone).symm⟩
  refine ⟨tail, isTail, fun isDone => ?_⟩
  rw [at_.done_out isDone] at isTail
  exact List.append_right_eq_self.mp isTail.symm

/-! ## Filling a buffer -/

/-- A read has ended: at the end of the stream, with a full buffer, or with some data if that is
enough. -/
def ReadEnded (block : Bool) (usedBegin : Nat) (after : IoRead × Buffer) : Prop :=
  after.1.eofAll = true ∨ bufFull after.2 = true ∨ block = false ∧ usedBegin < after.2.used.length

/-- The group asked for its input again, and will be done when it gets it. -/
def Finishing (this : IoRead) (buffer : Buffer) : Prop :=
  bufFull buffer = false ∧ this.filterGroup.inputSame = true ∧ ∃ after,
    Returns (fun fuel => ioFilterGroupProcess fuel this.filterGroup this.input buffer) after ∧
      after.1.done = true

/-- A read that stops as soon as it has some data finds the end only without data, unless the group
was finishing. With a group that writes all it can without a flush no read finds the end with a full
buffer. -/
structure EndFound (specs : List (FilterSpec × IoFilter)) (block : Bool) (usedBegin : Nat)
    (this : IoRead) (buffer : Buffer) (after : IoRead × Buffer) : Prop where
  eof : after.1.eofAll = true → block = true ∨ after.2.used.length ≤ usedBegin ∨
    this.eofAll = true ∧ after = (this, buffer) ∨ Finishing this buffer
  same : after.1.filterGroup.inputSame = true → bufFull after.2 = true ∨
    this.eofAll = true ∧ after = (this, buffer)
  prompt : Prompt specs → after.1.eofAll = true → bufFull after.2 = false ∨
    this.eofAll = true ∧ after = (this, buffer)

/-- The state of a read after some rounds. -/
def Filled (specs : List (FilterSpec × IoFilter)) (stream out : Bytes) (this : IoRead)
    (buffer : Buffer) (after : IoRead × Buffer) : Prop :=
  ∃ written slot' inp' places', after.2 = ⟨buffer.used ++ written, buffer.size⟩ ∧
    written.length ≤ bufRemains buffer ∧
    ReadAt specs stream slot' inp' (out ++ written) places' after.1 ∧ SameOutput this after.1

theorem Filled.trans {this' : IoRead} {written : Bytes} {after : IoRead × Buffer}
    (fits : written.length ≤ bufRemains buffer) (same : SameOutput this this')
    (filled : Filled specs stream (out ++ written) this' ⟨buffer.used ++ written, buffer.size⟩ after) :
    Filled specs stream out this buffer after := by
  obtain ⟨more, slot', inp', places', isMore, fits', at', same'⟩ := filled
  have room := bufRemains_append buffer fits
  refine ⟨written ++ more, slot', inp', places', by rw [isMore, List.append_assoc], ?_,
    by simpa using at', same.trans same'⟩
  rw [List.length_append]
  omega

theorem internal_stop {block : Bool} {usedBegin : Nat} (at_ : ReadAt specs stream slot inp out places this)
    (ended : (ioReadEof this || bufFull buffer) = true) :
    ∃ after, LoopReturns (ioReadInternalRound block usedBegin) (this, buffer) after ∧
      Filled specs stream out this buffer after ∧ ReadEnded block usedBegin after ∧
      EndFound specs block usedBegin this buffer after := by
  have either := Bool.or_eq_true_iff.mp ended
  refine ⟨(this, buffer), .stop (.of_eq fun _ => if_pos ended), ?_, ?_, ?_, ?_, ?_⟩
  · exact ⟨[], slot, inp, places, by simp, Nat.zero_le _, by simpa using at_, .refl this⟩
  · exact either.imp id .inl
  · exact fun isEof => .inr (.inr (.inl ⟨isEof, rfl⟩))
  · exact fun _ => either.symm.imp id fun isEof => ⟨isEof, rfl⟩
  · exact fun _ isEof => .inr ⟨isEof, rfl⟩

theorem EndFound.next {block : Bool} {usedBegin : Nat} {next last : IoRead × Buffer}
    (room : bufFull buffer = false) (unended : Unended specs buffer next)
    (found : EndFound specs block usedBegin (setEof next.1) next.2 last)
    (explained : next.1.filterGroup.done = true →
      block = true ∨ next.2.used.length ≤ usedBegin ∨ Finishing this buffer) :
    EndFound specs block usedBegin this buffer last := by
  constructor
  · intro isEof
    rcases found.eof isEof with isBlock | little | ⟨isEof', isLast⟩ | ⟨notFull, isSame, -⟩
    · exact .inl isBlock
    · exact .inr (.inl little)
    · have isDone : next.1.filterGroup.done = true := (Bool.and_eq_true_iff.mp isEof').2
      rw [isLast]
      rcases explained isDone with isBlock | little | finishing
      · exact .inl isBlock
      · exact .inr (.inl little)
      · exact .inr (.inr (.inr finishing))
    · rw [unended.full isSame] at notFull
      cases notFull
  · intro isSame
    rcases found.same isSame with isFull | ⟨-, isLast⟩
    · exact .inl isFull
    · rw [isLast] at isSame ⊢
      exact .inl (unended.full isSame)
  · intro prompt isEof
    rcases found.prompt prompt isEof with notFull | ⟨isEof', isLast⟩
    · exact .inl notFull
    · left
      rw [isLast]
      dsimp only
      rw [unended.prompt prompt (Bool.and_eq_true_iff.mp isEof').2]
      exact room

/-- The group has nothing left when everything was read. -/
theorem setEof_done (at_ : ReadAt specs stream slot inp out places this)
    (isDone : this.filterGroup.done = true) : (setEof this).eofAll = true := by
  simp [setEof, ioReadEofDriver, at_.done_fragments isDone, isDone]

theorem readAt_setEof (at_ : ReadAt specs stream slot inp out places this) :
    ReadAt specs stream slot inp out places (setEof this) := by
  apply at_.setEof
  intro isEof
  simpa [ioReadEofDriver] using isEof

theorem ioReadInternal_rounds (block : Bool) (usedBegin : Nat)
    (at_ : ReadAt specs stream slot inp out places this) :
    ∃ after, LoopReturns (ioReadInternalRound block usedBegin) (this, buffer) after ∧
      Filled specs stream out this buffer after ∧ ReadEnded block usedBegin after ∧
      EndFound specs block usedBegin this buffer after := by
  induction measure : (readsLeft this, places) using lessLeft_wf.induction
    generalizing this buffer slot inp out places with
  | _ left ih =>
    subst measure
    by_cases ended : (ioReadEof this || bufFull buffer) = true
    · exact internal_stop at_ ended
    · have notEnded : ioReadEof this = false ∧ bufFull buffer = false := by simpa using ended
      have room := bufFull_eq_false.mp notEnded.2
      -- After a step that does not end the read there is less left, or the end was reached.
      have next : ∀ after, Step specs stream out places this buffer after →
          ∃ last, LoopReturns (ioReadInternalRound block usedBegin) (setEof after.1, after.2) last ∧
            Filled specs stream out this buffer last ∧ ReadEnded block usedBegin last ∧
            EndFound specs block usedBegin (setEof after.1) after.2 last := by
        rintro ⟨after, buffer'⟩ ⟨written, slot', inp', places', isWritten, fits, at', same, -, advanced⟩
        dsimp only at isWritten
        subst isWritten
        have same' : SameOutput this (setEof after) := ⟨same.1, same.2, same.3, same.4⟩
        rcases advanced.lessLeft with less | ⟨-, isDone⟩
        · obtain ⟨last, loops, filled, isEnd⟩ :=
            @ih _ less _ _ _ _ _ ⟨buffer.used ++ written, buffer.size⟩ (readAt_setEof at') rfl
          exact ⟨last, loops, filled.trans fits same', isEnd⟩
        · have isEof : (ioReadEof (setEof after) ||
              bufFull ⟨buffer.used ++ written, buffer.size⟩) = true := by
            rw [ioReadEof, setEof_done at' isDone, Bool.true_or]
          obtain ⟨last, loops, filled, isEnd⟩ := internal_stop (readAt_setEof at') isEof
          exact ⟨last, loops, filled.trans fits same', isEnd⟩
      cases isSame : this.filterGroup.inputSame with
      | true =>
        obtain ⟨after, returns, called, step⟩ := step_same at_ notEnded.1 isSame room
        obtain ⟨last, loops, filled, isEnd, found⟩ := next after step
        obtain ⟨-, -, -, -, -, -, -, -, unended, -⟩ := step
        refine ⟨last, loops.next ?_, filled, isEnd, found.next notEnded.2 unended fun isDone => ?_⟩
        · have round : ∀ fuel, ioReadInternalRound block usedBegin fuel (this, buffer) =
              (process fuel this buffer).bind fun processed =>
                .ok (.inl (setEof processed.1, processed.2)) := by
            intro fuel
            rw [ioReadInternalRound, if_neg ended, if_pos isSame]
          simp only [round]
          exact returns.bind (.of_eq fun _ => rfl)
        · exact .inr (.inr ⟨notEnded.2, isSame, _, called, isDone⟩)
      | false =>
        obtain ⟨after, returns, step⟩ := step_new at_ notEnded.1 isSame room
        have round : ∀ fuel, ioReadInternalRound block usedBegin fuel (this, buffer) =
            (processInput fuel (readInput this (bufRemains buffer)) buffer).bind fun processed =>
              if !block && decide (processed.2.used.length > usedBegin) then .ok (.inr processed)
              else .ok (.inl (setEof processed.1, processed.2)) := by
          intro fuel
          rw [ioReadInternalRound, if_neg ended, if_neg (by simp [isSame])]
        by_cases enough : (!block && decide (after.2.used.length > usedBegin)) = true
        · obtain ⟨written, slot', inp', places', isWritten, fits, at', same, unended, -⟩ := step
          refine ⟨after, .stop ?_, ⟨written, slot', inp', places', isWritten, fits, at', same⟩, ?_, ?_, ?_,
            ?_⟩
          · simp only [round]
            exact returns.bind (.of_eq fun _ => if_pos enough)
          · exact .inr (.inr (by simpa using enough))
          · intro isEof
            rw [unended.notEof] at isEof
            cases isEof
          · exact fun isSame' => .inl (unended.full isSame')
          · intro _ isEof
            rw [unended.notEof] at isEof
            cases isEof
        · obtain ⟨last, loops, filled, isEnd, found⟩ := next after step
          obtain ⟨-, -, -, -, -, -, -, -, unended, -⟩ := step
          refine ⟨last, loops.next ?_, filled, isEnd, found.next notEnded.2 unended fun _ => ?_⟩
          · simp only [round]
            exact returns.bind (.of_eq fun _ => if_neg enough)
          · cases block with
            | true => exact .inl rfl
            | false => exact .inr (.inl (by simpa using enough))

end Advance

/-! ## The text that is left -/

section Left
variable {specs : List (FilterSpec × IoFilter)} {stream tail rest : Bytes} {this : IoRead}
  {buffer : Buffer}

/-- What the group will still write. -/
def Ahead (specs : List (FilterSpec × IoFilter)) (stream : Bytes) (this : IoRead) (tail : Bytes) : Prop :=
  ∃ slot inp out places, ReadAt specs stream slot inp out places this ∧
    compose specs stream = out ++ tail

theorem Ahead.positive (ahead : Ahead specs stream this tail) : 0 < this.bufferSize := by
  obtain ⟨slot, inp, out, places, at_, -⟩ := ahead
  exact at_.positive

theorem Ahead.eof (ahead : Ahead specs stream this tail) (isEof : this.eofAll = true) : tail = [] := by
  obtain ⟨slot, inp, out, places, at_, isTail⟩ := ahead
  rw [at_.done_out (at_.eof isEof).2] at isTail
  exact List.append_right_eq_self.mp isTail.symm

/-- At the end the flush of the group is complete. -/
theorem Ahead.observed (ahead : Ahead specs stream this tail) (isEof : this.eofAll = true) :
    this.filterGroup.done = true ∧ AllObserved specs this.filterGroup.filterList stream := by
  obtain ⟨slot, inp, out, places, at_, -⟩ := ahead
  obtain ⟨ended, isDone⟩ := at_.eof isEof
  have isStream := at_.isStream
  rw [ended, List.flatten_nil, List.append_nil] at isStream
  rw [isStream]
  exact ⟨isDone, (at_.group.compose isDone).2⟩

/-- The internal output buffer is not part of what the group does. -/
theorem Ahead.withOutput (ahead : Ahead specs stream this tail) (output : Bytes) (outputPos : Nat) :
    Ahead specs stream { this with output := output, outputPos := outputPos } tail := by
  obtain ⟨slot, inp, out, places, at_, isTail⟩ := ahead
  exact ⟨slot, inp, out, places, ⟨at_.group, at_.positive, at_.isStream, at_.input, at_.eof⟩, isTail⟩

/-- A read adds the next bytes to the buffer. -/
theorem ioReadInternal_spec (buffer : Buffer) (block : Bool) (ahead : Ahead specs stream this tail) :
    ∃ after written tail', Returns (fun fuel => ioReadInternal fuel this buffer block) after ∧
      after.2 = ⟨buffer.used ++ written, buffer.size⟩ ∧ written.length ≤ bufRemains buffer ∧
      tail = written ++ tail' ∧ Ahead specs stream after.1 tail' ∧ SameOutput this after.1 ∧
      ReadEnded block buffer.used.length after ∧
      EndFound specs block buffer.used.length this buffer after := by
  obtain ⟨slot, inp, out, places, at_, isTail⟩ := ahead
  obtain ⟨after, loops, ⟨written, slot', inp', places', isWritten, fits, at', same⟩, ended⟩ :=
    @ioReadInternal_rounds specs stream slot inp out places this buffer block buffer.used.length at_
  obtain ⟨tail', isTail', -⟩ := at'.out_starts
  refine ⟨after, written, tail', loops.returns, isWritten, fits, ?_,
    ⟨slot', inp', out ++ written, places', at', isTail'⟩, same, ended⟩
  rw [isTail, List.append_assoc] at isTail'
  exact List.append_cancel_left isTail'

/-- What was read to the internal output buffer and not used yet. -/
def retained (this : IoRead) : Bytes := this.output.drop this.outputPos

/-- The text that the next calls return, from the internal output buffer first. -/
structure Pending (specs : List (FilterSpec × IoFilter)) (stream : Bytes) (this : IoRead)
    (rest : Bytes) : Prop where
  ahead : ∃ tail, Ahead specs stream this tail ∧ rest = retained this ++ tail
  fits : this.output.length ≤ this.bufferSize

/-- At the end only the internal output buffer has something. -/
theorem Pending.eof (pending : Pending specs stream this rest) (isEof : this.eofAll = true) :
    rest = retained this := by
  obtain ⟨⟨tail, ahead, rfl⟩, -⟩ := pending
  rw [ahead.eof isEof, List.append_nil]

/-- An object that was just opened has the whole text left. -/
theorem pending_open {bufferSize : Nat} (positive : 0 < bufferSize) (block : Bool)
    (honoured : ∀ spec ∈ specs, Honoured spec) (fragments : List Bytes) :
    Pending (withBufferSpec specs) fragments.flatten
      (ioReadOpen bufferSize block (specs.map Prod.snd) fragments) (compose specs fragments.flatten) := by
  obtain ⟨places, group⟩ := groupAt_open positive specs honoured
  have at_ : ReadAt (withBufferSpec specs) fragments.flatten .idle [] [] places
      (ioReadOpen bufferSize block (specs.map Prod.snd) fragments) :=
    ⟨group, positive, rfl, ⟨nofun, trivial⟩, nofun⟩
  refine ⟨⟨_, ⟨_, _, _, _, at_, rfl⟩, ?_⟩, Nat.zero_le _⟩
  rw [compose_withBufferSpec]
  rfl

end Left

end ReadStream
