import Backrest.FilterChain

/-!
# Calls of a filter group

A call of `ioFilterGroupProcess` returns, gives every byte on exactly once, and leaves
less to do unless it had new input or the group was done before. Once the group is done
it has written the composition of its in-out filters, and each in-only filter has seen
the bytes at its place.
-/

namespace FilterGroup

open Text FuelLoop StreamFilter

/-- A group between two calls. -/
structure GroupAt (size : Nat) (specs : List (FilterSpec × IoFilter)) (slot : Slot)
    (inp out : Bytes) (places : List (IoFilter × Slot)) (this : IoFilterGroup) : Prop where
  chain : Chain size specs this.filterList slot inp out places
  scanned : this = scan this.filterList

section Process
variable {size : Nat} {specs : List (FilterSpec × IoFilter)} {slot : Slot} {inp out : Bytes}
  {places : List (IoFilter × Slot)} {this : IoFilterGroup} {input : Option Bytes} {output : Buffer}

theorem GroupAt.inputSame (at_ : GroupAt size specs slot inp out places this) :
    this.inputSame = anySame this.filterList := by
  rw [at_.scanned]
  rfl

/-- Without a request for the same input the group can be given new input or be flushed. -/
theorem GroupAt.notBusy (at_ : GroupAt size specs slot inp out places this)
    (notSame : this.inputSame = false) (c : Bytes) : slot ≠ .busy c := by
  intro isBusy
  obtain ⟨data, mem, same⟩ := at_.chain.busy_same isBusy
  rw [at_.inputSame, anySame_eq_false] at notSame
  rw [notSame data mem] at same
  cases same

variable {nodes : List IoFilterData} {data : IoFilterData}

theorem Chain.done_same (chain : Chain size specs nodes slot inp out places) (mem : data ∈ nodes)
    (isDone : ioFilterDone data.filter = true) : ioFilterInputSame data.filter = false := by
  induction chain with
  | last honours reach =>
    obtain rfl := List.mem_singleton.mp mem
    exact (honours.done reach isDone).2
  | observe observes observed chain ih =>
    rcases List.mem_cons.mp mem with rfl | later
    · exact (observed_place observes observed).2.1
    · exact ih later
  | inOut honours reach link chain ih =>
    rcases List.mem_cons.mp mem with rfl | later
    · exact (honours.done reach isDone).2
    · exact ih later

theorem GroupAt.done_iff (at_ : GroupAt size specs slot inp out places this) :
    this.done = true ↔ allDone this.filterList := by
  rw [at_.scanned]
  simp only [scan, List.all_eq_true, Bool.and_eq_true, Bool.not_eq_true']
  constructor
  · exact fun all data mem => (all data mem).2
  · exact fun isDone data mem => ⟨at_.chain.done_same mem (isDone data mem), isDone data mem⟩

def MayPass (this : IoFilterGroup) (slot : Slot) (input : Option Bytes) : Prop :=
  if this.inputSame then Again slot input else Allowed slot input

/-- What a call adds to the input. -/
def given (this : IoFilterGroup) (slot : Slot) (input : Option Bytes) : Bytes :=
  if this.inputSame then [] else fresh slot input

theorem GroupAt.mayFlush (at_ : GroupAt size specs slot inp out places this)
    (start : slot = .flushing ∨ this.inputSame = false) : MayPass this slot none := by
  unfold MayPass
  cases isSame : this.inputSame with
  | true =>
    rw [isSame] at start
    obtain rfl : slot = .flushing := start.resolve_right (by simp)
    exact rfl
  | false =>
    cases slot with
    | idle => exact Allowed.flush
    | busy c => exact absurd rfl (at_.notBusy isSame c)
    | flushing => exact Allowed.flushAgain

theorem given_none : given this slot none = [] := by
  unfold given
  split
  · rfl
  · cases slot <;> rfl

/-- A group and the caller's buffer after a call. -/
def Processed (size : Nat) (specs : List (FilterSpec × IoFilter)) (slot : Slot) (inp out : Bytes)
    (places : List (IoFilter × Slot)) (this : IoFilterGroup) (input : Option Bytes) (output : Buffer)
    (result : IoFilterGroup × Buffer) : Prop :=
  ∃ written slot' places', result.2 = ⟨output.used ++ written, output.size⟩ ∧
    written.length ≤ bufRemains output ∧
    GroupAt size specs slot' (inp ++ given this slot input) (out ++ written) places' result.1 ∧
    Again slot' input ∧
    (slot' = .flushing ↔ slot = .flushing ∨ this.inputSame = false ∧ input = none) ∧
    (Fewer places' places ∨ this.inputSame = false ∧ input ≠ none ∨
      this.done = true ∧ written = [] ∧ result.1.done = true)

theorem process_again (at_ : GroupAt size specs slot inp out places this)
    (isSame : this.inputSame = true) (again : Again slot input) (room : 0 < bufRemains output) :
    ∃ result, Returns (fun fuel => ioFilterGroupProcess fuel this input output) result ∧
      Processed size specs slot inp out places this input output result := by
  obtain ⟨round, loops, written, slot', places', isWritten, fits, chain, again', isFlushing, fewer, -⟩ :=
    rounds_spec at_.chain again room
  refine ⟨(scan round.filterList, round.output), ?_, written, slot', places', isWritten, fits, ?_,
    again', ?_, .inl (fewer (at_.inputSame ▸ isSame))⟩
  · have returns := loops.returns
    rw [← isSame] at returns
    exact returns.bind (.of_eq fun _ => rfl)
  · rw [given, if_pos isSame, List.append_nil]
    exact ⟨chain, rfl⟩
  · simp [isFlushing, isSame]

theorem again_nextSlot (consumed : Bool) : Again (nextSlot input (!consumed)) input := by
  cases input with
  | none => rfl
  | some c =>
    cases consumed with
    | true => trivial
    | false => rfl

theorem nextSlot_flushing {inputSame : Bool} : nextSlot input inputSame = .flushing ↔ input = none := by
  cases input with
  | none => simp [nextSlot]
  | some c => cases inputSame <;> simp [nextSlot]

theorem allowed_flushing (allowed : Allowed slot input) (isFlushing : slot = .flushing) :
    input = none := by
  subst isFlushing
  cases allowed
  rfl

theorem allDone_same (chain : Chain size specs nodes slot inp out places) (isDone : allDone nodes) :
    anySame nodes = false :=
  anySame_eq_false.mpr fun data mem => chain.done_same mem (isDone data mem)

theorem process_new (at_ : GroupAt size specs slot inp out places this)
    (notSame : this.inputSame = false) (allowed : Allowed slot input)
    (room : 0 < bufRemains output) :
    ∃ result, Returns (fun fuel => ioFilterGroupProcess fuel this input output) result ∧
      Processed size specs slot inp out places this input output result := by
  have quiet := anySame_eq_false.mp (at_.inputSame ▸ notSame)
  obtain ⟨pass, run, written, places', isWritten, fits, after, progress⟩ :=
    forward_spec at_.chain allowed (fun data mem => quiet data (List.mem_of_mem_tail mem)) room
  have again' : Again (nextSlot input (!pass.consumed)) input := again_nextSlot pass.consumed
  have round : processRound input ⟨this.filterList, output, this.inputSame⟩ =
      roundEnd ⟨pass.filterList, pass.output, pass.inputSame⟩ := by
    rw [processRound, notSame, if_neg (by simp), run]
    rfl
  have isGiven : given this slot input = fresh slot input := if_neg (by simp [notSame])
  have flushes : input = none ↔ slot = .flushing ∨ this.inputSame = false ∧ input = none :=
    ⟨fun isNone => .inr ⟨notSame, isNone⟩,
      fun either => either.elim (allowed_flushing allowed) And.right⟩
  cases goesOn : (!bufFull pass.output && pass.inputSame) with
  | false =>
    refine ⟨(scan pass.filterList, pass.output), ?_, written, _, places', isWritten, fits,
      ⟨isGiven ▸ after, rfl⟩, again', nextSlot_flushing.trans flushes, ?_⟩
    · have stops : LoopReturns (fun _ => processRound input)
          ⟨this.filterList, output, this.inputSame⟩ ⟨pass.filterList, pass.output, pass.inputSame⟩ := by
        refine .stop (.of_eq fun _ => ?_)
        rw [round, roundEnd, goesOn]
        rfl
      exact stops.returns.bind (.of_eq fun _ => rfl)
    · rcases progress with less | ⟨-, isSome⟩ | ⟨doneBefore, isNil, doneAfter⟩
      · exact .inl (Relation.TransGen.single less)
      · exact .inr (.inl ⟨notSame, isSome⟩)
      · refine .inr (.inr ⟨at_.done_iff.mpr doneBefore, isNil, ?_⟩)
        have after_ : GroupAt size specs _ _ _ _ (scan pass.filterList) := ⟨after, rfl⟩
        exact after_.done_iff.mpr doneAfter
  | true =>
    rw [Bool.and_eq_true, Bool.not_eq_true'] at goesOn
    have room' := bufFull_eq_false.mp goesOn.1
    obtain ⟨last, loops, more, slot', places'', isMore, fits', chain, again'', isFlushing, fewer,
      unchanged⟩ := rounds_spec after again' room'
    have first : Returns (fun _ => processRound input ⟨this.filterList, output, this.inputSame⟩)
        (.inl ⟨pass.filterList, pass.output, true⟩) := by
      refine .of_eq fun _ => ?_
      rw [round, goesOn.2, roundEnd, goesOn.1]
      rfl
    have room'' := bufRemains_append output fits
    rw [isWritten] at isMore fits'
    refine ⟨(scan last.filterList, last.output), (loops.next first).returns.bind (.of_eq fun _ => rfl),
      written ++ more, slot', places'', by simp [isMore], ?_,
      ⟨by simpa [isGiven, scan] using chain, rfl⟩, again'',
      isFlushing.trans (nextSlot_flushing.trans flushes), ?_⟩
    · rw [List.length_append]
      omega
    · rcases progress with less | ⟨-, isSome⟩ | ⟨doneBefore, isNil, doneAfter⟩
      · left
        cases isSame : anySame pass.filterList with
        | true => exact (fewer isSame).tail less
        | false =>
          rw [(unchanged isSame).2.2]
          exact Relation.TransGen.single less
      · exact .inr (.inl ⟨notSame, isSome⟩)
      · right
        right
        obtain ⟨sameNodes, noMore, -⟩ := unchanged (allDone_same after doneAfter)
        have after_ : GroupAt size specs _ _ _ _ (scan pass.filterList) := ⟨after, rfl⟩
        refine ⟨at_.done_iff.mpr doneBefore, by simp [isNil, noMore], ?_⟩
        rw [sameNodes]
        exact after_.done_iff.mpr doneAfter

theorem Chain.inOnly_same (chain : Chain size specs nodes slot inp out places) (mem : data ∈ nodes)
    (inOnly : ioFilterOutput data.filter = false) : data.filter.interface.inputSame = none := by
  induction chain with
  | last honours reach =>
    obtain rfl := List.mem_singleton.mp mem
    have isOutput := (reach_place honours reach).2.1
    exact absurd (isOutput.symm.trans inOnly) (by simp)
  | observe observes observed chain ih =>
    rcases List.mem_cons.mp mem with rfl | later
    · obtain ⟨chunks, -, rfl⟩ := observed
      exact (foldl_callIn observes chunks).2.1
    · exact ih later
  | inOut honours reach link chain ih =>
    rcases List.mem_cons.mp mem with rfl | later
    · have isOutput := (reach_place honours reach).2.1
      exact absurd (isOutput.symm.trans inOnly) (by simp)
    · exact ih later

theorem processIn_same {filter filter' : IoFilter} (noSame : filter.interface.inputSame = none)
    (run : ioFilterProcessIn filter input = .ok filter') : ioFilterInputSame filter' = false := by
  have same : filter'.interface.inputSame = none := by
    unfold ioFilterProcessIn at run
    rw [Outcome.bind_eq_ok] at run
    obtain ⟨-, -, run⟩ := run
    cases input with
    | none =>
      cases run
      exact noSame
    | some c =>
      cases run
      exact (callIn_interface filter c).2.1.mpr noSame
  rw [ioFilterInputSame, same]

theorem join_same {consumed inputSame : Bool} {pass : Pass}
    (first : ioFilterInputSame data.filter = false) (rest : anySame pass.filterList = false) :
    anySame (join data consumed inputSame pass).filterList = false := by
  have sameFilter : (if ioFilterOutput data.filter then clearOutput data pass.consumed else data).filter =
      data.filter := by
    split
    · rw [clearOutput]
      split <;> rfl
    · rfl
  rw [anySame, join, List.any_cons, sameFilter, first]
  exact rest

theorem nullOutput_filter (data : IoFilterData) : (nullOutput data).filter = data.filter := by
  rw [nullOutput]
  split
  · split <;> rfl
  · rfl

theorem forward_same {pass : Pass} (quiet : ∀ data ∈ nodes, ioFilterInputSame data.filter = false)
    (inOnly : ∀ data ∈ nodes, ioFilterOutput data.filter = false →
      data.filter.interface.inputSame = none) (run : forward nodes input output = .ok pass)
    (notSame : pass.inputSame = false) :
    anySame pass.filterList = false := by
  induction nodes generalizing input output pass with
  | nil =>
    cases run
    rfl
  | cons data rest ih =>
    rw [List.forall_mem_cons] at quiet inOnly
    rw [forward] at run
    by_cases isDone : ioFilterDone data.filter = true
    · rw [if_pos isDone, Outcome.bind_eq_ok] at run
      obtain ⟨later, run, isJoin⟩ := run
      cases isJoin
      refine join_same ?_ (ih quiet.2 inOnly.2 run notSame)
      rw [nullOutput_filter]
      exact quiet.1
    · rw [if_neg isDone] at run
      by_cases isOutput : ioFilterOutput data.filter = true
      · rw [if_pos isOutput, Outcome.bind_eq_ok] at run
        obtain ⟨called, -, run⟩ := run
        dsimp only at run
        split at run
        · cases run
          rw [anySame_eq_false, List.forall_mem_cons]
          exact ⟨notSame, quiet.2⟩
        · rw [Outcome.bind_eq_ok] at run
          obtain ⟨later, run, isJoin⟩ := run
          cases isJoin
          have both := Bool.or_eq_false_iff.mp notSame
          refine join_same ?_ (ih quiet.2 inOnly.2 run both.2)
          rw [nullOutput_filter]
          exact both.1
      · rw [if_neg isOutput, Outcome.bind_eq_ok] at run
        obtain ⟨filter, isFilter, run⟩ := run
        rw [Outcome.bind_eq_ok] at run
        obtain ⟨later, run, isJoin⟩ := run
        cases isJoin
        have noSame := inOnly.1 (Bool.eq_false_iff.mpr isOutput)
        exact join_same (processIn_same noSame isFilter) (ih quiet.2 inOnly.2 run notSame)

theorem roundEnd_next {round next : Round} (step : roundEnd round = .ok (.inl next)) :
    next = round ∧ round.inputSame = true := by
  rw [roundEnd] at step
  split at step
  · rename_i goesOn
    cases step
    exact ⟨rfl, (Bool.and_eq_true_iff.mp goesOn).2⟩
  · cases step

theorem roundEnd_stop {round last : Round} (step : roundEnd round = .ok (.inr last)) :
    last = round ∧ (bufFull round.output = true ∨ round.inputSame = false) := by
  rw [roundEnd] at step
  split at step
  · cases step
  · rename_i stops
    cases step
    refine ⟨rfl, ?_⟩
    cases isFull : bufFull round.output with
    | true => exact .inl rfl
    | false => exact .inr (by simpa [isFull] using stops)

theorem processRound_next {s s' : Round} (step : processRound input s = .ok (.inl s')) :
    s'.inputSame = true := by
  rw [processRound] at step
  split at step
  · split at step
    · cases step
    · rw [Outcome.bind_eq_ok] at step
      obtain ⟨pass, -, step⟩ := step
      obtain ⟨rfl, isSame⟩ := roundEnd_next step
      exact isSame
  · rw [Outcome.bind_eq_ok] at step
    obtain ⟨pass, -, step⟩ := step
    obtain ⟨rfl, isSame⟩ := roundEnd_next step
    exact isSame

theorem same_of_resume_none (stops : resume nodes input output = none) :
    anySame nodes = false := by
  induction nodes generalizing input with
  | nil => rfl
  | cons data rest ih =>
    rw [resume] at stops
    split at stops
    · cases stops
    · rename_i stopsLater
      split at stops
      · cases stops
      · rename_i notSame
        rw [anySame, List.any_cons, Bool.eq_false_iff.mpr notSame]
        exact ih stopsLater

theorem processRound_stop {s s' : Round}
    (start : s.inputSame = false →
      (∀ data ∈ s.filterList, ioFilterInputSame data.filter = false) ∧
        ∀ data ∈ s.filterList, ioFilterOutput data.filter = false →
          data.filter.interface.inputSame = none)
    (step : processRound input s = .ok (.inr s')) (isSame : anySame s'.filterList = true) :
    bufFull s'.output = true := by
  rw [processRound] at step
  split at step
  · split at step
    · rename_i stops
      cases step
      rw [same_of_resume_none stops] at isSame
      cases isSame
    · rw [Outcome.bind_eq_ok] at step
      obtain ⟨pass, -, step⟩ := step
      obtain ⟨rfl, isFull | notSame⟩ := roundEnd_stop step
      · exact isFull
      · cases notSame
  · rename_i notSame
    rw [Outcome.bind_eq_ok] at step
    obtain ⟨pass, run, step⟩ := step
    obtain ⟨rfl, isFull | noSame⟩ := roundEnd_stop step
    · exact isFull
    · obtain ⟨quiet, inOnly⟩ := start (Bool.eq_false_iff.mpr notSame)
      rw [forward_same quiet inOnly run noSame] at isSame
      cases isSame

/-- A call that leaves a request for the same input has filled the output buffer. -/
theorem process_full {fuel : Nat} {result : IoFilterGroup × Buffer}
    (at_ : GroupAt size specs slot inp out places this)
    (run : ioFilterGroupProcess fuel this input output = .ok result)
    (isSame : result.1.inputSame = true) : bufFull result.2 = true := by
  rw [ioFilterGroupProcess, Outcome.bind_eq_ok] at run
  obtain ⟨round, loops, isResult⟩ := run
  cases isResult
  -- Only the first round may be one that starts from the first filter.
  have full : anySame round.filterList = true → bufFull round.output = true := by
    apply loop_ok (P := fun s => s.inputSame = false →
      (∀ data ∈ s.filterList, ioFilterInputSame data.filter = false) ∧
        ∀ data ∈ s.filterList, ioFilterOutput data.filter = false →
          data.filter.interface.inputSame = none) ?_ ?_ ?_ loops
    · intro s s' _ step notSame
      rw [processRound_next step] at notSame
      cases notSame
    · intro s s' start step isSame
      exact processRound_stop start step isSame
    · intro notSame
      exact ⟨anySame_eq_false.mp (at_.inputSame ▸ notSame), fun data => at_.chain.inOnly_same⟩
  exact full isSame

/-- Every call that may be made returns. -/
theorem process_spec (at_ : GroupAt size specs slot inp out places this)
    (may : MayPass this slot input) (room : 0 < bufRemains output) :
    ∃ result, Returns (fun fuel => ioFilterGroupProcess fuel this input output) result ∧
      Processed size specs slot inp out places this input output result := by
  cases isSame : this.inputSame with
  | true =>
    rw [MayPass, if_pos isSame] at may
    exact process_again at_ isSame may room
  | false =>
    rw [MayPass, if_neg (by simp [isSame])] at may
    exact process_new at_ isSame may room

theorem returns_full {result : IoFilterGroup × Buffer}
    (at_ : GroupAt size specs slot inp out places this)
    (returns : Returns (fun fuel => ioFilterGroupProcess fuel this input output) result)
    (isSame : result.1.inputSame = true) : bufFull result.2 = true := by
  obtain ⟨fuel, run⟩ := returns
  exact process_full at_ (run fuel le_rfl) isSame

end Process

/-! ## What a group computes -/

section Compose
variable {size : Nat} {specs : List (FilterSpec × IoFilter)} {slot : Slot} {inp out : Bytes}
  {places : List (IoFilter × Slot)} {this : IoFilterGroup}

def compose : List (FilterSpec × IoFilter) → Bytes → Bytes
  | [], stream => stream
  | (.inOut f, _) :: rest, stream => compose rest (f stream)
  | (.observe, _) :: rest, stream => compose rest stream

def AllObserved : List (FilterSpec × IoFilter) → List IoFilterData → Bytes → Prop
  | [], [], _ => True
  | (.inOut f, _) :: specs, _ :: nodes, stream => AllObserved specs nodes (f stream)
  | (.observe, first) :: specs, data :: nodes, stream =>
    Observed first data.filter true stream ∧ AllObserved specs nodes stream
  | _, _, _ => False

theorem Chain.compose {nodes : List IoFilterData}
    (chain : Chain size specs nodes slot inp out places) (isDone : allDone nodes) :
    out = compose specs inp ∧ AllObserved specs nodes inp := by
  induction chain with
  | last honours reach =>
    exact ⟨(honours.done reach (isDone _ List.mem_cons_self)).1, trivial⟩
  | observe observes observed chain ih =>
    have later := ih fun data mem => isDone data (List.mem_cons_of_mem _ mem)
    have ended := (observed_place observes observed).2.2
    rw [isDone _ List.mem_cons_self] at ended
    rw [← ended] at observed
    exact ⟨later.1, observed, later.2⟩
  | inOut honours reach link chain ih =>
    have doneRest : allDone _ := fun data mem => isDone data (List.mem_cons_of_mem _ mem)
    obtain ⟨whole, observed⟩ := ih doneRest
    have written := (honours.done reach (isDone _ List.mem_cons_self)).1
    have flushing := chain.slot_of_done doneRest
    subst flushing
    obtain ⟨-, rfl, -⟩ := link
    rw [written] at whole observed
    exact ⟨whole, observed⟩

theorem GroupAt.compose (at_ : GroupAt size specs slot inp out places this)
    (isDone : this.done = true) :
    out = FilterGroup.compose specs inp ∧ AllObserved specs this.filterList inp :=
  at_.chain.compose (at_.done_iff.mp isDone)

/-- A chain that writes all it can without a flush: what it was given is passed on completely unless
it asked for the same input. -/
def Prompt (specs : List (FilterSpec × IoFilter)) : Prop :=
  ∀ {size slot inp out places this}, GroupAt size specs slot inp out places this →
    slot = .flushing ∨ this.inputSame = false → out = FilterGroup.compose specs inp

/-- The flush of such a chain writes nothing. -/
theorem Prompt.written {slot' : Slot} {this' : IoFilterGroup} {input : Option Bytes} {written : Bytes}
    {places' : List (IoFilter × Slot)} (prompt : Prompt specs)
    (at_ : GroupAt size specs slot inp out places this)
    (after : GroupAt size specs slot' (inp ++ given this slot input) (out ++ written) places' this')
    (flushes : slot' = .flushing ↔ slot = .flushing ∨ this.inputSame = false ∧ input = none)
    (isDone : this'.done = true) : written = [] := by
  have isFlush := flushes.mp (after.chain.slot_of_done (after.done_iff.mp isDone))
  have isGiven : given this slot input = [] := by
    rcases isFlush with rfl | ⟨-, rfl⟩
    · unfold given
      split <;> rfl
    · exact given_none
  have whole := (after.compose isDone).1
  rw [isGiven, List.append_nil, ← prompt at_ (isFlush.imp id And.left)] at whole
  exact List.append_right_eq_self.mp whole

def Honoured : FilterSpec × IoFilter → Prop
  | (.inOut f, first) => Honours f first
  | (.observe, first) => Observes first

/-- The filters of an open group: one that copies is added unless the last one writes. -/
def withBufferSpec : List (FilterSpec × IoFilter) → List (FilterSpec × IoFilter)
  | [] => [(.inOut id, ioBufferNew)]
  | [(.inOut f, first)] => [(.inOut f, first)]
  | spec :: rest => spec :: withBufferSpec rest

theorem compose_withBufferSpec (specs : List (FilterSpec × IoFilter)) (stream : Bytes) :
    FilterGroup.compose (withBufferSpec specs) stream = FilterGroup.compose specs stream := by
  fun_induction withBufferSpec specs generalizing stream with
  | case1 => rfl
  | case2 f first => rfl
  | case3 spec rest _ ih =>
    obtain ⟨spec, first⟩ := spec
    cases spec with
    | inOut f => exact ih (f stream)
    | observe => exact ih stream

end Compose

/-! ## The buffer filter copies -/

section IoBuffer

def bufferFilter (driver : IoBuffer) (flushing : Bool) : IoFilter :=
  ⟨IoBuffer, ioBufferNew.interface, driver, flushing⟩

def BufferAt (this : IoFilter) (inp out : Bytes) : Slot → Prop
  | .idle => this = bufferFilter {} false ∧ out = inp
  | .busy c => ∃ pos before, this = bufferFilter ⟨pos, true⟩ false ∧ pos < c.length ∧
      inp = before ++ c ∧ out = before ++ c.take pos
  | .flushing => this = bufferFilter {} true ∧ out = inp

variable {pos room : Nat} {c inp out : Bytes} {this : IoFilter}

/-- What one call copies, from a position in the input. -/
theorem ioBufferProcess_eq {same : Bool} (within : pos ≤ c.length) :
    ioBufferProcess ⟨pos, same⟩ (some c) room =
      if c.length ≤ pos + room then ({}, c.drop pos)
      else (⟨pos + room, true⟩, (c.drop pos).take room) := by
  by_cases all : c.length ≤ pos + room
  · have copySize : min (c.length - pos) room = c.length - pos := Nat.min_eq_left (by omega)
    have whole : pos + (c.length - pos) = c.length := by omega
    simp only [ioBufferProcess, Option.getD_some, copySize, whole, if_true, if_pos all]
    rw [List.take_of_length_le (by simp)]
  · have copySize : min (c.length - pos) room = room := Nat.min_eq_right (by omega)
    have partly : pos + room ≠ c.length := by omega
    simp only [ioBufferProcess, Option.getD_some, copySize, partly, if_false, if_neg all]

theorem callInOut_buffer {same : Bool} (within : pos ≤ c.length) :
    callInOut (bufferFilter ⟨pos, same⟩ false) (some c) room =
      if c.length ≤ pos + room then (bufferFilter {} false, c.drop pos)
      else (bufferFilter ⟨pos + room, true⟩ false, (c.drop pos).take room) := by
  have step : callInOut (bufferFilter ⟨pos, same⟩ false) (some c) room =
      (bufferFilter (ioBufferProcess ⟨pos, same⟩ (some c) room).1 false,
        (ioBufferProcess ⟨pos, same⟩ (some c) room).2) := rfl
  rw [step, ioBufferProcess_eq within]
  split <;> rfl

theorem callInOut_buffer_flush (flushing : Bool) (room : Nat) :
    callInOut (bufferFilter {} flushing) none room = (bufferFilter {} true, []) := by
  cases flushing <;> rfl

/-- A call from a position in the input either copies the rest or fills the space. -/
theorem bufferAt_copy (before : Bytes) (same : Bool) (within : pos ≤ c.length) :
    BufferAt (callInOut (bufferFilter ⟨pos, same⟩ false) (some c) room).1 (before ++ c)
      (before ++ c.take pos ++ (callInOut (bufferFilter ⟨pos, same⟩ false) (some c) room).2)
      (nextSlot (some c)
        (ioFilterInputSame (callInOut (bufferFilter ⟨pos, same⟩ false) (some c) room).1)) := by
  rw [callInOut_buffer within]
  by_cases all : c.length ≤ pos + room
  · rw [if_pos all]
    exact ⟨rfl, by simp⟩
  · rw [if_neg all]
    refine ⟨pos + room, before, rfl, by omega, rfl, ?_⟩
    rw [List.append_assoc, List.take_add]

theorem bufferAt_reach {slot : Slot} (reach : Reach ioBufferNew this slot inp out) :
    BufferAt this inp out slot := by
  induction reach with
  | start => exact ⟨rfl, rfl⟩
  | @call this slot inp out input room before allowed positive notDone ih =>
    cases allowed with
    | @input c nonempty =>
      obtain ⟨rfl, rfl⟩ := ih
      simpa [fresh] using bufferAt_copy out false (Nat.zero_le c.length)
    | @again c nonempty =>
      obtain ⟨pos, copied, rfl, within, rfl, rfl⟩ := ih
      simpa [fresh] using bufferAt_copy copied true within.le
    | flush =>
      obtain ⟨rfl, rfl⟩ := ih
      rw [callInOut_buffer_flush]
      exact ⟨rfl, by simp [fresh]⟩
    | flushAgain =>
      obtain ⟨rfl, rfl⟩ := ih
      rw [callInOut_buffer_flush]
      exact ⟨rfl, by simp [fresh]⟩

theorem buffer_done (isAt : BufferAt this inp out .flushing) :
    ioFilterDone this = true := by
  obtain ⟨rfl, -⟩ := isAt
  rfl

theorem acc_flushing (isAt : BufferAt this inp out .flushing) :
    Acc Step (this, .flushing) := by
  constructor
  rintro after ⟨input, room, -, -, -, notDone, -, -⟩
  exact absurd (notDone.symm.trans (buffer_done isAt)) (by simp)

theorem acc_idle (isAt : BufferAt this inp out .idle) :
    Acc Step (this, .idle) := by
  obtain ⟨rfl, rfl⟩ := isAt
  constructor
  rintro ⟨g, slot⟩ ⟨input, room, allowed, isFlush, -, -, isCalled, isSlot⟩
  obtain rfl := isFlush rfl
  dsimp only at isCalled isSlot
  subst isCalled isSlot
  rw [callInOut_buffer_flush]
  have flushed : BufferAt (bufferFilter {} true) out out .flushing := ⟨rfl, rfl⟩
  exact acc_flushing flushed

/-- Each call copies something, so that the input is used up in the end. -/
theorem acc_busy (within : pos ≤ c.length) :
    Acc Step (bufferFilter ⟨pos, true⟩ false, .busy c) := by
  induction left : c.length - pos using Nat.strongRecOn generalizing pos with
  | ind left' ih =>
    constructor
    rintro ⟨g, slot⟩ ⟨input, room, allowed, -, positive, -, isCalled, isSlot⟩
    cases allowed
    dsimp only at isCalled isSlot
    subst isCalled isSlot
    rw [callInOut_buffer within]
    by_cases all : c.length ≤ pos + room
    · rw [if_pos all]
      have idle : BufferAt (bufferFilter {} false) [] [] .idle := ⟨rfl, rfl⟩
      exact acc_idle idle
    · rw [if_neg all]
      exact ih (c.length - (pos + room)) (by omega) (by omega) rfl

theorem ioBufferNew_honours : Honours id ioBufferNew where
  isOutput := rfl
  notFlushing := rfl
  notSame := rfl
  fits := by
    intro this slot inp out input room reach allowed positive notDone
    have isAt := bufferAt_reach reach
    have copies : ∀ {pos same} {c : Bytes}, pos ≤ c.length →
        (callInOut (bufferFilter ⟨pos, same⟩ false) (some c) room).2.length ≤ room := by
      intro pos same c within
      rw [callInOut_buffer within]
      split
      · simp
        omega
      · simp
    cases allowed with
    | input nonempty =>
      obtain ⟨rfl, -⟩ := isAt
      exact copies (Nat.zero_le _)
    | again nonempty =>
      obtain ⟨pos, before, rfl, within, -⟩ := isAt
      exact copies within.le
    | flush =>
      obtain ⟨rfl, -⟩ := isAt
      simp [callInOut_buffer_flush]
    | flushAgain =>
      obtain ⟨rfl, -⟩ := isAt
      simp [callInOut_buffer_flush]
  same := by
    intro this slot inp out input room reach allowed positive notDone isSame
    have isAt := bufferAt_reach reach
    have copies : ∀ {pos same} {c : Bytes}, pos ≤ c.length →
        ioFilterInputSame (callInOut (bufferFilter ⟨pos, same⟩ false) (some c) room).1 = true →
        (callInOut (bufferFilter ⟨pos, same⟩ false) (some c) room).2 ≠ [] := by
      intro pos same c within
      rw [callInOut_buffer within]
      split
      · exact nofun
      · intro _ isNil
        have lengths := congrArg List.length isNil
        simp at lengths
        omega
    cases allowed with
    | input nonempty =>
      obtain ⟨rfl, -⟩ := isAt
      exact copies (Nat.zero_le _) isSame
    | again nonempty =>
      obtain ⟨pos, before, rfl, within, -⟩ := isAt
      exact copies within.le isSame
    | flush =>
      obtain ⟨rfl, -⟩ := isAt
      rw [callInOut_buffer_flush] at isSame
      cases isSame
    | flushAgain =>
      obtain ⟨rfl, -⟩ := isAt
      rw [callInOut_buffer_flush] at isSame
      cases isSame
  done := by
    intro this slot inp out reach isDone
    have isAt := bufferAt_reach reach
    cases slot with
    | idle =>
      obtain ⟨rfl, -⟩ := isAt
      cases isDone
    | busy c =>
      obtain ⟨pos, before, rfl, -⟩ := isAt
      cases isDone
    | flushing =>
      obtain ⟨rfl, isSame⟩ := isAt
      exact ⟨isSame, rfl⟩
  ends := by
    intro this slot inp out reach
    have isAt := bufferAt_reach reach
    cases slot with
    | idle => exact acc_idle isAt
    | busy c =>
      obtain ⟨pos, before, rfl, within, -⟩ := isAt
      exact acc_busy within.le
    | flushing => exact acc_flushing isAt

/-- A group without filters copies at once. -/
theorem prompt_buffer : Prompt (withBufferSpec []) := by
  intro size slot inp out places this at_ quiet
  obtain ⟨chain, scanned⟩ := at_
  generalize this.filterList = nodes at chain scanned
  cases chain with
  | last honours reach =>
    have isAt := bufferAt_reach reach
    cases slot with
    | idle => exact isAt.2
    | busy c =>
      obtain ⟨pos, before, rfl, -⟩ := isAt
      rcases quiet with isFlushing | notSame
      · cases isFlushing
      · rw [scanned] at notSame
        cases notSame
    | flushing => exact isAt.2
  | inOut honours reach link chain => cases chain

end IoBuffer

/-! ## Opening a group -/

section Open
variable {size : Nat}

theorem withBuffer_cons (filter : IoFilter) {rest : List IoFilter} (nonempty : rest ≠ []) :
    withBuffer (filter :: rest) = filter :: withBuffer rest := by
  rw [withBuffer, withBuffer, List.getLast?_cons_of_ne_nil nonempty]
  cases last : rest.getLast? with
  | none => exact absurd (List.getLast?_eq_none_iff.mp last) nonempty
  | some filter' =>
    dsimp only
    split <;> rfl

theorem withBuffer_specs (specs : List (FilterSpec × IoFilter))
    (honoured : ∀ spec ∈ specs, Honoured spec) :
    withBuffer (specs.map Prod.snd) = (withBufferSpec specs).map Prod.snd := by
  fun_induction withBufferSpec specs with
  | case1 => rfl
  | case2 f first =>
    have honours : Honours f first := honoured _ List.mem_cons_self
    simp [withBuffer, honours.isOutput]
  | case3 spec rest notLast ih =>
    have later := ih (fun other mem => honoured other (List.mem_cons_of_mem _ mem))
    cases rest with
    | nil =>
      obtain ⟨spec, first⟩ := spec
      cases spec with
      | inOut f => exact absurd rfl (notLast f first rfl)
      | observe =>
        have observes : Observes first := honoured _ List.mem_cons_self
        simp [withBuffer, observes.notOutput, withBufferSpec]
    | cons next rest =>
      rw [List.map_cons, withBuffer_cons _ (by simp), later]
      rfl

theorem withBufferSpec_ne_nil (specs : List (FilterSpec × IoFilter)) : withBufferSpec specs ≠ [] := by
  fun_cases withBufferSpec specs <;> simp

theorem openFilters_cons (filter : IoFilter) {rest : List IoFilter} (nonempty : rest ≠ []) :
    openFilters size (filter :: rest) =
      ⟨filter, if ioFilterOutput filter then some ⟨[], size⟩ else none⟩ :: openFilters size rest := by
  cases rest with
  | nil => exact absurd rfl nonempty
  | cons next rest => rfl

theorem chain_open (positive : 0 < size) (specs : List (FilterSpec × IoFilter))
    (honoured : ∀ spec ∈ specs, Honoured spec) :
    ∃ places, Chain size (withBufferSpec specs) (openFilters size ((withBufferSpec specs).map Prod.snd))
      .idle [] [] places := by
  fun_induction withBufferSpec specs with
  | case1 => exact ⟨_, Chain.last ioBufferNew_honours Reach.start⟩
  | case2 f first =>
    have honours : Honours f first := honoured _ List.mem_cons_self
    exact ⟨_, Chain.last honours Reach.start⟩
  | case3 spec rest notLast ih =>
    obtain ⟨places, chain⟩ := ih (fun other mem => honoured other (List.mem_cons_of_mem _ mem))
    have nonempty : (withBufferSpec rest).map Prod.snd ≠ [] := by
      simpa using withBufferSpec_ne_nil rest
    obtain ⟨spec, first⟩ := spec
    rw [List.map_cons, openFilters_cons _ nonempty]
    cases spec with
    | inOut f =>
      have honours : Honours f first := honoured _ List.mem_cons_self
      have link : Link size ⟨first, some ⟨[], size⟩⟩ [] [] .idle :=
        ⟨[], rfl, rfl, positive, fun _ => rfl⟩
      refine ⟨(first, .idle) :: places, ?_⟩
      rw [if_pos honours.isOutput]
      exact Chain.inOut honours Reach.start link chain
    | observe =>
      have observes : Observes first := honoured _ List.mem_cons_self
      have observed : Observed first first false [] := by
        refine ⟨[], rfl, ?_⟩
        rw [List.foldl_nil, ← observes.notFlushing]
      refine ⟨places, ?_⟩
      rw [if_neg (by simp [observes.notOutput])]
      exact Chain.observe observes observed chain

theorem honoured_withBufferSpec {specs : List (FilterSpec × IoFilter)}
    (honoured : ∀ spec ∈ specs, Honoured spec) : ∀ spec ∈ withBufferSpec specs, Honoured spec := by
  fun_induction withBufferSpec specs with
  | case1 =>
    intro spec mem
    obtain rfl := List.mem_singleton.mp mem
    exact ioBufferNew_honours
  | case2 f first => exact honoured
  | case3 spec rest notLast ih =>
    intro other mem
    rcases List.mem_cons.mp mem with rfl | later
    · exact honoured _ List.mem_cons_self
    · exact ih (fun o m => honoured o (List.mem_cons_of_mem _ m)) other later

theorem mem_openFilters {filters : List IoFilter} {data : IoFilterData}
    (mem : data ∈ openFilters size filters) : data.filter ∈ filters := by
  fun_induction openFilters size filters with
  | case1 => exact absurd mem List.not_mem_nil
  | case2 filter =>
    obtain rfl := List.mem_singleton.mp mem
    exact List.mem_cons_self
  | case3 filter next rest ih =>
    rcases List.mem_cons.mp mem with rfl | later
    · exact List.mem_cons_self
    · exact List.mem_cons_of_mem _ (ih later)

/-- A filter that was not called yet neither asks for input again nor is done. -/
theorem honoured_first {spec : FilterSpec × IoFilter} (honoured : Honoured spec) :
    ioFilterInputSame spec.2 = false ∧ ioFilterDone spec.2 = false := by
  obtain ⟨spec, first⟩ := spec
  cases spec with
  | inOut f =>
    have honours : Honours f first := honoured
    exact ⟨honours.notSame, if_neg (by simp [honours.notFlushing])⟩
  | observe =>
    have observes : Observes first := honoured
    refine ⟨?_, if_neg (by simp [observes.notFlushing])⟩
    rw [ioFilterInputSame, observes.noSame]

/-- A group starts without input or output. -/
theorem groupAt_open (positive : 0 < size) (specs : List (FilterSpec × IoFilter))
    (honoured : ∀ spec ∈ specs, Honoured spec) :
    ∃ places, GroupAt size (withBufferSpec specs) .idle [] [] places
      (ioFilterGroupOpen size (specs.map Prod.snd)) := by
  obtain ⟨places, chain⟩ := chain_open positive specs honoured
  have isOpen : ioFilterGroupOpen size (specs.map Prod.snd) =
      ⟨openFilters size ((withBufferSpec specs).map Prod.snd), false, false⟩ := by
    rw [ioFilterGroupOpen, withBuffer_specs specs honoured]
  have idle : ∀ data ∈ openFilters size ((withBufferSpec specs).map Prod.snd),
      ioFilterInputSame data.filter = false ∧ ioFilterDone data.filter = false := by
    intro data mem
    obtain ⟨spec, isSpec, isFilter⟩ := List.mem_map.mp (mem_openFilters mem)
    rw [← isFilter]
    exact honoured_first (honoured_withBufferSpec honoured spec isSpec)
  rw [isOpen]
  refine ⟨places, chain, ?_⟩
  have notSame := anySame_eq_false.mpr fun data mem => (idle data mem).1
  have notDone : (openFilters size ((withBufferSpec specs).map Prod.snd)).all
      (fun data => !ioFilterInputSame data.filter && ioFilterDone data.filter) = false := by
    have nonempty := chain.nonempty
    cases filters : openFilters size ((withBufferSpec specs).map Prod.snd) with
    | nil =>
      rw [filters] at nonempty
      cases nonempty
    | cons data rest =>
      rw [filters] at idle
      rw [List.all_cons, (idle data List.mem_cons_self).2, Bool.and_false, Bool.false_and]
  rw [scan]
  dsimp only
  rw [notDone]
  exact congrArg (fun same => IoFilterGroup.mk _ same false) notSame.symm

end Open

end FilterGroup
