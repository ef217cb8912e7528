import Backrest.GroupProcess

/-!
# Writing through filters

`ioWrite` passes a buffer to the filter group until it is used up and hands the output
buffer to the driver whenever it is full. `ioWriteClose` flushes the group and writes
what is left.
-/

namespace WriteStream

open Text FuelLoop StreamFilter FilterGroup

structure IoWrite where
  filterGroup : IoFilterGroup
  output : Buffer
  /-- The buffers that were passed to the driver. -/
  driver : List Bytes

def ioWriteOpen (bufferSize : Nat) (filters : List IoFilter) : IoWrite where
  filterGroup := ioFilterGroupOpen bufferSize filters
  output := ⟨[], bufferSize⟩
  driver := []

def writeOutput (this : IoWrite) : IoWrite :=
  { this with output := { this.output with used := [] }, driver := this.driver ++ [this.output.used] }

/-- Write data if the buffer is full. -/
def writeFull (this : IoWrite) : IoWrite := if bufFull this.output then writeOutput this else this

/-- Write data if the buffer is full or if this is the last buffer to be written. -/
def writeLast (this : IoWrite) : IoWrite :=
  if bufFull this.output || (this.filterGroup.done && !this.output.used.isEmpty) then writeOutput this
  else this

/-- One round of the loop of `ioWrite`. -/
def ioWriteRound (buffer : Bytes) (fuel : Nat) (this : IoWrite) : Outcome Error (IoWrite ⊕ IoWrite) :=
  (ioFilterGroupProcess fuel this.filterGroup (some buffer) this.output).bind fun processed =>
    let this := writeFull ⟨processed.1, processed.2, this.driver⟩
    if this.filterGroup.inputSame then .ok (.inl this) else .ok (.inr this)

def ioWrite (fuel : Nat) (this : IoWrite) (buffer : Bytes) : Outcome Error IoWrite :=
  -- Only write if there is data to write
  if buffer = [] then .ok this else loop (ioWriteRound buffer fuel) fuel this

/-- One round of the loop of `ioWriteClose`. -/
def ioWriteCloseRound (fuel : Nat) (this : IoWrite) : Outcome Error (IoWrite ⊕ IoWrite) :=
  (ioFilterGroupProcess fuel this.filterGroup none this.output).bind fun processed =>
    let this := writeLast ⟨processed.1, processed.2, this.driver⟩
    if this.filterGroup.done then .ok (.inr this) else .ok (.inl this)

def ioWriteClose (fuel : Nat) (this : IoWrite) : Outcome Error IoWrite :=
  loop (ioWriteCloseRound fuel) fuel this

def ioWriteAll (fuel : Nat) : IoWrite → List Bytes → Outcome Error IoWrite
  | this, [] => ioWriteClose fuel this
  | this, buffer :: rest => (ioWrite fuel this buffer).bind fun this => ioWriteAll fuel this rest

section Spec
variable {size : Nat} {specs : List (FilterSpec × IoFilter)} {slot : Slot} {inp out : Bytes}
  {places : List (IoFilter × Slot)} {this : IoWrite}

/-- What the group has written was passed to the driver or is in the output buffer, which has
space left. -/
structure WriteAt (size : Nat) (specs : List (FilterSpec × IoFilter)) (slot : Slot)
    (inp out : Bytes) (places : List (IoFilter × Slot)) (this : IoWrite) : Prop where
  group : GroupAt size specs slot inp out places this.filterGroup
  isOut : out = this.driver.flatten ++ this.output.used
  room : 0 < bufRemains this.output
  hasSize : 0 < this.output.size

theorem WriteAt.written {group : IoFilterGroup} {written : Bytes} {slot' : Slot} {inp' : Bytes}
    {places' : List (IoFilter × Slot)} (at_ : WriteAt size specs slot inp out places this)
    (group' : GroupAt size specs slot' inp' (out ++ written) places' group) :
    WriteAt size specs slot' inp' (out ++ written) places'
      (writeFull ⟨group, ⟨this.output.used ++ written, this.output.size⟩, this.driver⟩) := by
  have isOut : out ++ written = this.driver.flatten ++ (this.output.used ++ written) := by
    rw [at_.isOut, List.append_assoc]
  unfold writeFull
  split
  · exact ⟨group', by simpa [writeOutput] using isOut, at_.hasSize, at_.hasSize⟩
  · rename_i notFull
    exact ⟨group', isOut, bufFull_eq_false.mp (Bool.eq_false_iff.mpr notFull), at_.hasSize⟩

theorem ioWriteRound_spec {c : Bytes} (at_ : WriteAt size specs slot inp out places this)
    (may : MayPass this.filterGroup slot (some c)) (notFlushing : slot ≠ .flushing) :
    ∃ this' slot' out' places', Returns (fun fuel => ioWriteRound c fuel this)
        (if this'.filterGroup.inputSame then .inl this' else .inr this') ∧
      WriteAt size specs slot' (inp ++ given this.filterGroup slot (some c)) out' places' this' ∧
      Again slot' (some c) ∧ slot' ≠ .flushing ∧
      (this.filterGroup.inputSame = true → Fewer places' places) := by
  obtain ⟨⟨group, output⟩, returns, written, slot', places', rfl, fits, group', again, flushes,
    progress⟩ := process_spec at_.group may at_.room
  refine ⟨_, slot', _, places', ?_, at_.written group', again, ?_, ?_⟩
  · refine returns.bind (.of_eq fun _ => ?_)
    exact (apply_ite Outcome.ok _ _ _).symm
  · intro isFlushing
    rcases flushes.mp isFlushing with before | ⟨-, isNone⟩
    · exact notFlushing before
    · cases isNone
  · intro isSame
    rcases progress with fewer | ⟨notSame, -⟩ | ⟨isDone, -⟩
    · exact fewer
    · rw [isSame] at notSame
      cases notSame
    · have notSame := allDone_same at_.group.chain (at_.group.done_iff.mp isDone)
      rw [← at_.group.inputSame, isSame] at notSame
      cases notSame

theorem ioWrite_again {c : Bytes} (at_ : WriteAt size specs slot inp out places this)
    (isSame : this.filterGroup.inputSame = true) (again : Again slot (some c))
    (notFlushing : slot ≠ .flushing) :
    ∃ this' slot' out' places', LoopReturns (ioWriteRound c) this this' ∧
      WriteAt size specs slot' inp out' places' this' ∧ slot' ≠ .flushing ∧
      this'.filterGroup.inputSame = false := by
  induction places using fewer_wf.induction generalizing this slot out with
  | _ places ih =>
    have may : MayPass this.filterGroup slot (some c) := by
      rw [MayPass, if_pos isSame]
      exact again
    obtain ⟨this', slot', out', places', returns, at', again', notFlushing', fewer⟩ :=
      ioWriteRound_spec at_ may notFlushing
    rw [given, if_pos isSame, List.append_nil] at at'
    cases isSame' : this'.filterGroup.inputSame with
    | true =>
      rw [isSame', if_pos rfl] at returns
      obtain ⟨last, slot'', out'', places'', loops, at'', notFlushing'', notSame⟩ :=
        ih places' (fewer isSame) at' isSame' again' notFlushing'
      exact ⟨last, slot'', out'', places'', loops.next returns, at'', notFlushing'', notSame⟩
    | false =>
      rw [isSame', if_neg (by simp)] at returns
      exact ⟨this', slot', out', places', .stop returns, at', notFlushing', isSame'⟩

theorem ioWrite_spec (at_ : WriteAt size specs .idle inp out places this)
    (notSame : this.filterGroup.inputSame = false) (buffer : Bytes) :
    ∃ this' out' places', Returns (fun fuel => ioWrite fuel this buffer) this' ∧
      WriteAt size specs .idle (inp ++ buffer) out' places' this' ∧
      this'.filterGroup.inputSame = false := by
  by_cases isEmpty : buffer = []
  · subst isEmpty
    refine ⟨this, out, places, .of_eq fun _ => if_pos rfl, by simpa using at_, notSame⟩
  · have may : MayPass this.filterGroup .idle (some buffer) := by
      rw [MayPass, if_neg (by simp [notSame])]
      exact Allowed.input isEmpty
    obtain ⟨first, slot', out', places', returns, at', again', notFlushing', -⟩ :=
      ioWriteRound_spec at_ may (by intro same; cases same)
    have isGiven : given this.filterGroup .idle (some buffer) = buffer := if_neg (by simp [notSame])
    rw [isGiven] at at'
    have loops : ∃ this' slot'' out'' places'', LoopReturns (ioWriteRound buffer) this this' ∧
        WriteAt size specs slot'' (inp ++ buffer) out'' places'' this' ∧ slot'' ≠ .flushing ∧
        this'.filterGroup.inputSame = false := by
      cases isSame' : first.filterGroup.inputSame with
      | true =>
        rw [isSame', if_pos rfl] at returns
        obtain ⟨last, slot'', out'', places'', loops, at'', notFlushing'', quiet⟩ :=
          ioWrite_again at' isSame' again' notFlushing'
        exact ⟨last, slot'', out'', places'', loops.next returns, at'', notFlushing'', quiet⟩
      | false =>
        rw [isSame', if_neg (by simp)] at returns
        exact ⟨first, slot', out', places', .stop returns, at', notFlushing', isSame'⟩
    obtain ⟨last, slot'', out'', places'', loops, at'', notFlushing'', quiet⟩ := loops
    have isIdle : slot'' = .idle := by
      cases slot'' with
      | idle => rfl
      | busy c => exact absurd rfl (at''.group.notBusy quiet c)
      | flushing => exact absurd rfl notFlushing''
    subst isIdle
    refine ⟨last, out'', places'', ?_, at'', quiet⟩
    have unfolds : (fun fuel => ioWrite fuel this buffer) =
        fun fuel => loop (ioWriteRound buffer fuel) fuel this := by
      funext fuel
      exact if_neg isEmpty
    rw [unfolds]
    exact loops.returns

/-- Nothing is held back once the group is done. -/
theorem writeLast_done (isDone : this.filterGroup.done = true) :
    (writeLast this).driver.flatten = this.driver.flatten ++ this.output.used := by
  unfold writeLast
  split
  · simp [writeOutput]
  · rename_i notWritten
    have isEmpty : this.output.used = [] := by
      simp only [isDone, Bool.true_and, Bool.or_eq_true, Bool.not_eq_true', not_or,
        Bool.not_eq_false, List.isEmpty_iff] at notWritten
      exact notWritten.2
    rw [isEmpty, List.append_nil]

theorem writeLast_group : (writeLast this).filterGroup = this.filterGroup := by
  unfold writeLast
  split <;> rfl

theorem writeLast_notDone (notDone : this.filterGroup.done = false) : writeLast this = writeFull this := by
  simp [writeLast, writeFull, notDone]

theorem ioWriteClose_spec (at_ : WriteAt size specs slot inp out places this)
    (start : slot = .flushing ∨ this.filterGroup.inputSame = false) :
    ∃ this', LoopReturns ioWriteCloseRound this this' ∧ this'.filterGroup.done = true ∧
      this'.driver.flatten = compose specs inp ∧
      AllObserved specs this'.filterGroup.filterList inp := by
  induction places using fewer_wf.induction generalizing this slot out with
  | _ places ih =>
    obtain ⟨⟨group, output⟩, returns, written, slot', places', rfl, fits, group', again, flushes,
      progress⟩ := process_spec at_.group (at_.group.mayFlush start) at_.room
    rw [given_none, List.append_nil] at group'
    have round : Returns (fun fuel => ioWriteCloseRound fuel this)
        (if group.done then
          .inr (writeLast ⟨group, ⟨this.output.used ++ written, this.output.size⟩, this.driver⟩)
        else .inl (writeLast ⟨group, ⟨this.output.used ++ written, this.output.size⟩, this.driver⟩)) := by
      refine returns.bind (.of_eq fun _ => ?_)
      dsimp only
      rw [writeLast_group]
      exact (apply_ite Outcome.ok _ _ _).symm
    cases isDone : group.done with
    | true =>
      rw [isDone, if_pos rfl] at round
      obtain ⟨whole, observed⟩ := group'.compose isDone
      refine ⟨_, .stop round, ?_, ?_, ?_⟩
      · rw [writeLast_group]
        exact isDone
      · rw [writeLast_done isDone, ← whole, at_.isOut, List.append_assoc]
      · rw [writeLast_group]
        exact observed
    | false =>
      rw [isDone, if_neg (by simp), writeLast_notDone isDone] at round
      have fewer : Fewer places' places := by
        rcases progress with fewer | ⟨-, given⟩ | ⟨-, -, isDone'⟩
        · exact fewer
        · exact absurd rfl given
        · rw [isDone] at isDone'
          cases isDone'
      have isFlushing : slot' = .flushing := flushes.mpr (start.imp id fun notSame => ⟨notSame, rfl⟩)
      obtain ⟨last, loops, rest⟩ := ih places' fewer (at_.written group') (.inl isFlushing)
      exact ⟨last, loops.next round, rest⟩

theorem ioWriteAll_spec (buffers : List Bytes) (at_ : WriteAt size specs .idle inp out places this)
    (notSame : this.filterGroup.inputSame = false) :
    ∃ this', Returns (fun fuel => ioWriteAll fuel this buffers) this' ∧
      this'.filterGroup.done = true ∧ this'.driver.flatten = compose specs (inp ++ buffers.flatten) ∧
      AllObserved specs this'.filterGroup.filterList (inp ++ buffers.flatten) := by
  induction buffers generalizing this inp out places with
  | nil =>
    obtain ⟨last, loops, isDone, whole, observed⟩ := ioWriteClose_spec at_ (.inr notSame)
    refine ⟨last, loops.returns, isDone, ?_, ?_⟩
    · simpa using whole
    · simpa using observed
  | cons buffer rest ih =>
    obtain ⟨next, out', places', returns, at', notSame'⟩ := ioWrite_spec at_ notSame buffer
    obtain ⟨last, returns', isDone, whole, observed⟩ := ih at' notSame'
    rw [List.append_assoc] at whole observed
    exact ⟨last, returns.bind returns', isDone, whole, observed⟩

end Spec

end WriteStream
