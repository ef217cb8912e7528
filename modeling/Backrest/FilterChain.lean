import Backrest.FilterGroup
import Mathlib.Data.List.Shortlex

/-!
# What a chain of filters computes

Between two passes every byte that a filter has written was given to the next filters
or waits in the buffer between them, and a filter that asked for the same input still
finds it there. A pass keeps this, and makes progress at the first filter it calls, so
that there is an end to passes that have no new input.
-/

namespace FilterGroup

open Text FuelLoop StreamFilter

/-! ## One filter -/

section Filter
variable {first this : IoFilter} {slot : Slot} {inp out : Bytes} {f : Bytes → Bytes}

@[simp]
theorem callInOut_output (this : IoFilter) (input : Option Bytes) (room : Nat) :
    ioFilterOutput (callInOut this input room).1 = ioFilterOutput this := by
  unfold callInOut
  dsimp only
  split
  · rfl
  · split <;> rfl

@[simp]
theorem callInOut_flushing (this : IoFilter) (input : Option Bytes) (room : Nat) :
    (callInOut this input room).1.flushing = (this.flushing || input.isNone) := by
  unfold callInOut
  dsimp only
  split
  · rfl
  · split <;> rfl

theorem reach_place (honours : Honours f first) (reach : Reach first this slot inp out) :
    this.flushing = slot.isFlushing ∧ ioFilterOutput this = true ∧
      (slot = .idle → ioFilterInputSame this = false) ∧
      ∀ c, slot = .busy c → ioFilterInputSame this = true ∧ c ≠ [] := by
  induction reach with
  | start => exact ⟨honours.notFlushing, honours.isOutput, fun _ => honours.notSame, nofun⟩
  | @call this slot inp out input room before allowed positive notDone ih =>
    obtain ⟨flushing, isOutput, -, busy⟩ := ih
    rw [callInOut_output, callInOut_flushing, flushing]
    cases allowed with
    | @input c nonempty =>
      cases same : ioFilterInputSame (callInOut this (some c) room).1 with
      | true =>
        refine ⟨rfl, isOutput, nofun, ?_⟩
        intro c' isBusy
        cases isBusy
        exact ⟨rfl, nonempty⟩
      | false => exact ⟨rfl, isOutput, fun _ => rfl, nofun⟩
    | @again c nonempty =>
      cases same : ioFilterInputSame (callInOut this (some c) room).1 with
      | true =>
        refine ⟨rfl, isOutput, nofun, ?_⟩
        intro c' isBusy
        cases isBusy
        exact ⟨rfl, nonempty⟩
      | false => exact ⟨rfl, isOutput, fun _ => rfl, nofun⟩
    | flush => exact ⟨rfl, isOutput, nofun, nofun⟩
    | flushAgain => exact ⟨rfl, isOutput, nofun, nofun⟩

theorem done_flushing (isDone : ioFilterDone this = true) : this.flushing = true := by
  unfold ioFilterDone at isDone
  split at isDone
  · assumption
  · cases isDone

theorem reach_done (honours : Honours f first) (reach : Reach first this slot inp out)
    (isDone : ioFilterDone this = true) : slot = .flushing := by
  have flushing := (reach_place honours reach).1
  rw [done_flushing isDone] at flushing
  cases slot with
  | flushing => rfl
  | _ => cases flushing

theorem processInOut_eq (honours : Honours f first) (reach : Reach first this slot inp out)
    {input : Option Bytes} (allowed : Allowed slot input) (notDone : ioFilterDone this = false)
    {output : Buffer} (room : 0 < bufRemains output) :
    ioFilterProcessInOut this input output =
      .ok ((callInOut this input (bufRemains output)).1,
        ⟨output.used ++ (callInOut this input (bufRemains output)).2, output.size⟩) := by
  have place := (reach_place honours reach).1
  have first : checkInput this input = .ok ⟨⟩ := by
    cases allowed with
    | input nonempty => exact checkInput_ok (by simpa using nonempty) (by simp [place, Slot.isFlushing])
    | again nonempty => exact checkInput_ok (by simpa using nonempty) (by simp [place, Slot.isFlushing])
    | flush => exact checkInput_ok (by simp) (by simp)
    | flushAgain => exact checkInput_ok (by simp) (by simp)
  have last : (!ioFilterInputSame (callInOut this input (bufRemains output)).1 ||
      !(output.used ++ (callInOut this input (bufRemains output)).2).isEmpty) = true := by
    cases same : ioFilterInputSame (callInOut this input (bufRemains output)).1 with
    | false => rfl
    | true =>
      have written := honours.same reach allowed room notDone same
      simp [written]
  rw [ioFilterProcessInOut, first, Outcome.ok_bind]
  dsimp only
  rw [check_ok last]
  rfl

/-- A step from a place where there is an end to steps. -/
def Descends (after before : IoFilter × Slot) : Prop := Step after before ∧ Acc Step before

theorem descends_wf : WellFounded Descends := by
  constructor
  intro a
  constructor
  rintro b ⟨step, acc⟩
  have accB : Acc Step b := acc.inv step
  clear step acc
  induction accB with
  | intro b _ ih =>
    constructor
    rintro c ⟨step, -⟩
    exact ih c step

instance : Std.Irrefl Descends := descends_wf.irrefl

/-- What a call does: it adds to the output, and makes progress unless the input is new. -/
theorem processInOut_spec (honours : Honours f first) (reach : Reach first this slot inp out)
    {input : Option Bytes} (allowed : Allowed slot input) (notDone : ioFilterDone this = false)
    {output : Buffer} (room : 0 < bufRemains output) :
    ∃ g o, ioFilterProcessInOut this input output = .ok (g, ⟨output.used ++ o, output.size⟩) ∧
      o.length ≤ bufRemains output ∧ ioFilterOutput g = true ∧
      Reach first g (nextSlot input (ioFilterInputSame g)) (inp ++ fresh slot input) (out ++ o) ∧
      (¬ (slot = .idle ∧ input ≠ none) →
        Descends (g, nextSlot input (ioFilterInputSame g)) (this, slot)) := by
  refine ⟨_, _, processInOut_eq honours reach allowed notDone room,
    honours.fits reach allowed room notDone, ?_, Reach.call reach allowed room notDone, ?_⟩
  · rw [callInOut_output]
    exact (reach_place honours reach).2.1
  · intro notNew
    refine ⟨⟨input, _, allowed, ?_, room, notDone, rfl, rfl⟩, honours.ends reach⟩
    intro isIdle
    by_contra given
    exact notNew ⟨isIdle, given⟩

end Filter

/-! ## Chains -/

/-- What a filter of a group is for. -/
inductive FilterSpec where
  | inOut (f : Bytes → Bytes)
  | observe

/-- An in-only filter has seen exactly these bytes, each once and in order. -/
def Observed (first this : IoFilter) (flushing : Bool) (seen : Bytes) : Prop :=
  ∃ chunks : List Bytes, chunks.flatten = seen ∧
    this = { chunks.foldl callIn first with flushing := flushing }

/-- The buffer between a filter, which has written `mid`, and the next ones, which were given
`inp`. -/
def Link (size : Nat) (data : IoFilterData) (mid inp : Bytes) : Slot → Prop
  | .idle => ∃ b, data.output = some ⟨b, size⟩ ∧ mid = inp ++ b ∧ b.length < size ∧
      (ioFilterDone data.filter = true → b = [])
  | .busy c => data.output = some ⟨c, size⟩ ∧ mid = inp ∧ 0 < size
  | .flushing => data.output = none ∧ mid = inp ∧ ioFilterDone data.filter = true

/-- A chain that was given `inp` and has written `out`, with the places of its in-out filters. -/
inductive Chain (size : Nat) : List (FilterSpec × IoFilter) → List IoFilterData → Slot → Bytes →
    Bytes → List (IoFilter × Slot) → Prop where
  | last {f : Bytes → Bytes} {first this : IoFilter} {slot : Slot} {inp out : Bytes}
    (honours : Honours f first) (reach : Reach first this slot inp out) :
    Chain size [(.inOut f, first)] [⟨this, none⟩] slot inp out [(this, slot)]
  | observe {first this : IoFilter} {specs : List (FilterSpec × IoFilter)}
    {rest : List IoFilterData} {slot : Slot} {inp out : Bytes} {places : List (IoFilter × Slot)}
    (observes : Observes first) (observed : Observed first this slot.isFlushing inp)
    (chain : Chain size specs rest slot inp out places) :
    Chain size ((.observe, first) :: specs) (⟨this, none⟩ :: rest) slot inp out places
  | inOut {f : Bytes → Bytes} {first : IoFilter} {data : IoFilterData}
    {specs : List (FilterSpec × IoFilter)} {rest : List IoFilterData} {slot next : Slot}
    {inp mid inp' out : Bytes} {places : List (IoFilter × Slot)}
    (honours : Honours f first) (reach : Reach first data.filter slot inp mid)
    (link : Link size data mid inp' next) (chain : Chain size specs rest next inp' out places) :
    Chain size ((.inOut f, first) :: specs) (data :: rest) slot inp out
      ((data.filter, slot) :: places)

section Observe
variable {first this : IoFilter} {flushing : Bool} {seen : Bytes}

theorem callIn_interface (this : IoFilter) (c : Bytes) :
    ioFilterOutput (callIn this c) = ioFilterOutput this ∧
      ((callIn this c).interface.inputSame = none ↔ this.interface.inputSame = none) ∧
      ((callIn this c).interface.done = none ↔ this.interface.done = none) ∧
      (callIn this c).flushing = this.flushing := by
  unfold callIn
  split
  · exact ⟨rfl, Iff.rfl, Iff.rfl, rfl⟩
  · exact ⟨rfl, Iff.rfl, Iff.rfl, rfl⟩

theorem foldl_callIn (observes : Observes first) (chunks : List Bytes) :
    ioFilterOutput (chunks.foldl callIn first) = false ∧
      (chunks.foldl callIn first).interface.inputSame = none ∧
      (chunks.foldl callIn first).interface.done = none ∧
      (chunks.foldl callIn first).flushing = false := by
  suffices h : ∀ g : IoFilter, ioFilterOutput g = false → g.interface.inputSame = none →
      g.interface.done = none → g.flushing = false →
      ioFilterOutput (chunks.foldl callIn g) = false ∧
      (chunks.foldl callIn g).interface.inputSame = none ∧
      (chunks.foldl callIn g).interface.done = none ∧ (chunks.foldl callIn g).flushing = false from
    h first observes.notOutput observes.noSame observes.noDone observes.notFlushing
  induction chunks with
  | nil => exact fun g a b c d => ⟨a, b, c, d⟩
  | cons chunk rest ih =>
    intro g isOutput noSame noDone notFlushing
    obtain ⟨sameOutput, sameSame, sameDone, sameFlushing⟩ := callIn_interface g chunk
    exact ih (callIn g chunk) (sameOutput.trans isOutput) (sameSame.mpr noSame)
      (sameDone.mpr noDone) (sameFlushing.trans notFlushing)

theorem observed_place (observes : Observes first) (observed : Observed first this flushing seen) :
    ioFilterOutput this = false ∧ ioFilterInputSame this = false ∧ ioFilterDone this = flushing := by
  obtain ⟨chunks, -, rfl⟩ := observed
  obtain ⟨isOutput, noSame, noDone, -⟩ := foldl_callIn observes chunks
  have same : ioFilterInputSame { chunks.foldl callIn first with flushing := flushing } = false := by
    rw [ioFilterInputSame]
    dsimp only
    rw [noSame]
  refine ⟨isOutput, same, ?_⟩
  rw [ioFilterDone, same]
  dsimp only
  rw [noDone]
  cases flushing <;> rfl

/-- An in-only filter looks at new input, and once the input has ended it is flushed. -/
theorem processIn_observed (observes : Observes first) (observed : Observed first this false seen)
    {input : Option Bytes} (nonempty : input ≠ some []) :
    ∃ this', ioFilterProcessIn this input = .ok this' ∧
      Observed first this' input.isNone (seen ++ input.getD []) := by
  obtain ⟨chunks, rfl, rfl⟩ := observed
  have notFlushing := (foldl_callIn observes chunks).2.2.2
  have passes : checkInput { chunks.foldl callIn first with flushing := false } input = .ok ⟨⟩ :=
    checkInput_ok nonempty nofun
  unfold ioFilterProcessIn
  rw [passes, Outcome.ok_bind]
  cases input with
  | none => exact ⟨_, rfl, chunks, by simp, rfl⟩
  | some c =>
    refine ⟨_, rfl, chunks ++ [c], by simp, ?_⟩
    rw [List.foldl_append]
    obtain ⟨-, -, -, flush⟩ := callIn_interface (chunks.foldl callIn first) c
    dsimp only [List.foldl_cons, List.foldl_nil, Option.isNone]
    have same : ({ chunks.foldl callIn first with flushing := false } : IoFilter) =
        chunks.foldl callIn first := by rw [← notFlushing]
    rw [same, ← notFlushing, ← flush]

end Observe

/-! ## One pass -/

section Pass
variable {size : Nat} {specs : List (FilterSpec × IoFilter)} {nodes : List IoFilterData}
  {slot : Slot} {inp out : Bytes} {places : List (IoFilter × Slot)}

/-- How many in-out filters there are. -/
def countInOut : List (FilterSpec × IoFilter) → Nat
  | [] => 0
  | (.inOut _, _) :: rest => countInOut rest + 1
  | (.observe, _) :: rest => countInOut rest

theorem Chain.length_places (chain : Chain size specs nodes slot inp out places) :
    places.length = countInOut specs := by
  induction chain with
  | last honours reach => rfl
  | observe observes observed chain ih => exact ih
  | inOut honours reach link chain ih =>
    rw [List.length_cons, ih]
    rfl

def allDone (nodes : List IoFilterData) : Prop := ∀ data ∈ nodes, ioFilterDone data.filter = true

/-- What a pass over a chain leaves: more output, and progress unless the input is new or all
filters are done. -/
def Passed (size : Nat) (specs : List (FilterSpec × IoFilter)) (nodes : List IoFilterData)
    (slot : Slot) (input : Option Bytes) (inp out : Bytes) (places : List (IoFilter × Slot))
    (output : Buffer) (pass : Pass) : Prop :=
  ∃ written places', pass.output = ⟨output.used ++ written, output.size⟩ ∧
    written.length ≤ bufRemains output ∧
    Chain size specs pass.filterList (nextSlot input (!pass.consumed)) (inp ++ fresh slot input)
      (out ++ written) places' ∧
    (List.Shortlex Descends places' places ∨ (slot = .idle ∧ input ≠ none) ∨
      (allDone nodes ∧ written = [] ∧ allDone pass.filterList))

theorem Chain.busy_same (chain : Chain size specs nodes slot inp out places) {c : Bytes}
    (isBusy : slot = .busy c) : ∃ data ∈ nodes, ioFilterInputSame data.filter = true := by
  induction chain with
  | last honours reach =>
    exact ⟨_, List.mem_cons_self, ((reach_place honours reach).2.2.2 c isBusy).1⟩
  | observe observes observed chain ih =>
    obtain ⟨data, mem, same⟩ := ih isBusy
    exact ⟨data, List.mem_cons_of_mem _ mem, same⟩
  | inOut honours reach link chain ih =>
    exact ⟨_, List.mem_cons_self, ((reach_place honours reach).2.2.2 c isBusy).1⟩

variable {first this : IoFilter} {input : Option Bytes} {output : Buffer} {f : Bytes → Bytes}
  {data : IoFilterData} {mid inp' : Bytes} {next : Slot} {rest : List IoFilterData}

theorem forward_last (size : Nat) (honours : Honours f first)
    (reach : Reach first this slot inp out) (allowed : Allowed slot input)
    (room : 0 < bufRemains output) :
    ∃ pass, forward [⟨this, none⟩] input output = .ok pass ∧
      Passed size [(.inOut f, first)] [⟨this, none⟩] slot input inp out [(this, slot)] output pass := by
  have isOutput := (reach_place honours reach).2.1
  by_cases isDone : ioFilterDone this = true
  · have isFlushing := reach_done honours reach isDone
    subst isFlushing
    cases allowed
    refine ⟨⟨[⟨this, none⟩], output, false, false⟩, ?_, ?_⟩
    · simp [forward, isDone, nullOutput, join, isOutput, clearOutput]
    · refine ⟨[], [(this, .flushing)], ?_, Nat.zero_le _, ?_, ?_⟩
      · simp
      · simpa [nextSlot, fresh] using Chain.last honours reach
      · exact .inr (.inr ⟨by simpa [allDone] using isDone, rfl, by simpa [allDone] using isDone⟩)
  · have notDone : ioFilterDone this = false := Bool.eq_false_iff.mpr isDone
    obtain ⟨g, o, called, fits, isOutput', after, descends⟩ :=
      processInOut_spec honours reach allowed notDone room
    have result : forward [⟨this, none⟩] input output = .ok
        ⟨[⟨g, none⟩], ⟨output.used ++ o, output.size⟩, !ioFilterInputSame g, ioFilterInputSame g⟩ := by
      simp only [forward, notDone, isOutput, target, called, List.isEmpty_nil, if_true,
        Bool.false_eq_true, if_false, Outcome.ok_bind]
      split
      · rfl
      · simp [join, nullOutput, clearOutput, isOutput']
    refine ⟨_, result, o, [(g, nextSlot input (ioFilterInputSame g))], rfl, fits, ?_, ?_⟩
    · dsimp only
      rw [Bool.not_not]
      exact Chain.last honours after
    · by_cases isNew : slot = .idle ∧ input ≠ none
      · exact .inr (.inl isNew)
      · exact .inl (List.Shortlex.of_lex rfl (List.Lex.rel (descends isNew)))

theorem Chain.nonempty (chain : Chain size specs nodes slot inp out places) :
    nodes.isEmpty = false := by
  cases chain <;> rfl

theorem Chain.slot_of_done (chain : Chain size specs nodes slot inp out places)
    (isDone : allDone nodes) : slot = .flushing := by
  induction chain with
  | last honours reach => exact reach_done honours reach (isDone _ List.mem_cons_self)
  | observe observes observed chain ih =>
    exact ih (fun data mem => isDone data (List.mem_cons_of_mem _ mem))
  | inOut honours reach link chain ih =>
    exact reach_done honours reach (isDone _ List.mem_cons_self)

theorem allowed_nonempty (allowed : Allowed slot input) : input ≠ some [] := by
  cases allowed with
  | input nonempty => simpa using nonempty
  | again nonempty => simpa using nonempty
  | flush => simp
  | flushAgain => simp

theorem forward_observe (observes : Observes first)
    (observed : Observed first this slot.isFlushing inp)
    (chain : Chain size specs rest slot inp out places) (allowed : Allowed slot input)
    (quiet : ∀ data ∈ rest, ioFilterInputSame data.filter = false)
    (ih : ∃ pass, forward rest input output = .ok pass ∧
      Passed size specs rest slot input inp out places output pass) :
    ∃ pass, forward (⟨this, none⟩ :: rest) input output = .ok pass ∧
      Passed size ((.observe, first) :: specs) (⟨this, none⟩ :: rest) slot input inp out places output
        pass := by
  obtain ⟨isOutput, -, isDone⟩ := observed_place observes observed
  obtain ⟨pass, run, written, places', isWritten, fits, after, progress⟩ := ih
  by_cases isFlushing : slot.isFlushing = true
  · rw [isFlushing] at isDone observed
    have slotIs : slot = .flushing := by
      cases slot with
      | flushing => rfl
      | _ => cases isFlushing
    subst slotIs
    cases allowed
    refine ⟨⟨⟨this, none⟩ :: pass.filterList, pass.output, pass.consumed, pass.inputSame⟩, ?_, ?_⟩
    · simp [forward, isDone, nullOutput, downstream, isOutput, run, join]
    · refine ⟨written, places', isWritten, fits, ?_, ?_⟩
      · exact Chain.observe observes (by simpa [nextSlot, fresh, Slot.isFlushing] using observed) after
      · rcases progress with less | isNew | ⟨doneBefore, isNil, doneAfter⟩
        · exact .inl less
        · exact .inr (.inl isNew)
        · exact .inr (.inr ⟨by simpa [allDone, isDone] using doneBefore, isNil,
            by simpa [allDone, isDone] using doneAfter⟩)
  · have notFlushing : slot.isFlushing = false := Bool.eq_false_iff.mpr isFlushing
    have slotIs : slot = .idle := by
      cases slot with
      | idle => rfl
      | flushing => cases notFlushing
      | busy c =>
        obtain ⟨data, mem, same⟩ := chain.busy_same rfl
        rw [quiet data mem] at same
        cases same
    subst slotIs
    obtain ⟨this', called, observed'⟩ := processIn_observed observes observed (allowed_nonempty allowed)
    have isOutput' := (observed_place observes observed').1
    have ends : Observed first this' (nextSlot input (!pass.consumed)).isFlushing
        (inp ++ fresh .idle input) := by
      cases input with
      | none => exact observed'
      | some c => cases isConsumed : pass.consumed <;> exact observed'
    refine ⟨⟨⟨this', none⟩ :: pass.filterList, pass.output, pass.consumed, pass.inputSame⟩, ?_, ?_⟩
    · rw [notFlushing] at isDone
      simp [forward, isDone, isOutput, called, isOutput', run, join]
    · refine ⟨written, places', isWritten, fits, Chain.observe observes ends after, ?_⟩
      rcases progress with less | isNew | ⟨doneBefore, isNil, doneAfter⟩
      · exact .inl less
      · exact .inr (.inl isNew)
      · exact absurd (chain.slot_of_done doneBefore) nofun

/-- What an in-out filter hands on: the content of its buffer, or NULL when it is done. -/
def Handed (size : Nat) (data : IoFilterData) (mid inp : Bytes) (next : Slot) : Prop :=
  (∃ b, b ≠ [] ∧ 0 < size ∧ data.output = some ⟨b, size⟩ ∧ mid = inp ++ b ∧ next = .idle) ∨
    (data.output = none ∧ mid = inp ∧ ioFilterDone data.filter = true ∧
      (next = .idle ∨ next = .flushing))

theorem Handed.allowed (handed : Handed size data mid inp' next) :
    Allowed next (data.output.map Buffer.used) := by
  rcases handed with ⟨b, nonempty, -, isOutput, -, rfl⟩ | ⟨isOutput, -, -, rfl | rfl⟩
  · rw [isOutput]
    exact Allowed.input nonempty
  · rw [isOutput]
    exact Allowed.flush
  · rw [isOutput]
    exact Allowed.flushAgain

theorem Handed.chain {consumed : Bool} (handed : Handed size data mid inp' next)
    (honours : Honours f first) (reach : Reach first data.filter slot inp mid)
    (after : Chain size specs rest (nextSlot (data.output.map Buffer.used) (!consumed))
      (inp' ++ fresh next (data.output.map Buffer.used)) out places) :
    Chain size ((.inOut f, first) :: specs) (clearOutput data consumed :: rest) slot inp out
      ((data.filter, slot) :: places) := by
  rcases handed with ⟨b, nonempty, positive, isOutput, rfl, rfl⟩ | ⟨isOutput, rfl, isDone, isNext⟩
  · rw [isOutput] at after
    cases consumed with
    | true =>
      have link : Link size (clearOutput data true) (inp' ++ b) (inp' ++ b) .idle :=
        ⟨[], by simp [clearOutput, isOutput], by simp, positive, fun _ => rfl⟩
      exact Chain.inOut honours reach link after
    | false =>
      have link : Link size (clearOutput data false) (inp' ++ b) (inp' ++ b) (.busy b) :=
        ⟨isOutput, rfl, positive⟩
      exact Chain.inOut honours reach link after
  · rw [isOutput] at after
    have nothing : fresh next none = [] := by rcases isNext with rfl | rfl <;> rfl
    have isFlushing : nextSlot (Option.map Buffer.used none) (!consumed) = .flushing := rfl
    rw [isFlushing, Option.map_none, nothing, List.append_nil] at after
    have same : clearOutput data consumed = data := by
      obtain ⟨filter, output⟩ := data
      obtain rfl : output = none := isOutput
      cases consumed <;> rfl
    have link : Link size data mid mid .flushing := ⟨isOutput, rfl, isDone⟩
    rw [same]
    exact Chain.inOut honours reach link after

theorem Handed.pass (handed : Handed size data mid inp' next) (honours : Honours f first)
    (reach : Reach first data.filter slot inp mid)
    (chain : Chain size specs rest next inp' out places) (input : Option Bytes)
    (consumed inputSame : Bool)
    (ih : ∃ pass, forward rest (data.output.map Buffer.used) output = .ok pass ∧
      Passed size specs rest next (data.output.map Buffer.used) inp' out places output pass) :
    ∃ pass, (forward rest (downstream data input) output).bind
        (fun pass => .ok (join data consumed inputSame pass)) = .ok pass ∧
      pass.consumed = consumed ∧
      ∃ written places', pass.output = ⟨output.used ++ written, output.size⟩ ∧
        written.length ≤ bufRemains output ∧
        Chain size ((.inOut f, first) :: specs) pass.filterList slot inp (out ++ written)
          ((data.filter, slot) :: places') ∧ places'.length = places.length ∧
        (List.Shortlex Descends places' places ∨ data.output ≠ none ∨
          (allDone rest ∧ written = [] ∧ allDone pass.filterList)) := by
  have isOutput := (reach_place honours reach).2.1
  obtain ⟨pass, run, written, places', isWritten, fits, after, progress⟩ := ih
  have isDownstream : downstream data input = data.output.map Buffer.used := if_pos isOutput
  refine ⟨join data consumed inputSame pass, ?_, if_pos isOutput, written, places', isWritten, fits,
    ?_, ?_, ?_⟩
  · rw [isDownstream, run]
    rfl
  · have nodes' : (join data consumed inputSame pass).filterList =
        clearOutput data pass.consumed :: pass.filterList := by
      simp [join, isOutput]
    rw [nodes']
    exact handed.chain honours reach after
  · rw [after.length_places, chain.length_places]
  · rcases progress with less | ⟨-, given⟩ | ⟨doneBefore, isNil, doneAfter⟩
    · exact .inl less
    · exact .inr (.inl (by simpa using given))
    · right
      rcases handed with ⟨b, nonempty, -, isSome, -, rfl⟩ | ⟨isNone, -, isDone, -⟩
      · exact .inl (by simp [isSome])
      · right
        refine ⟨doneBefore, isNil, ?_⟩
        intro other mem
        simp only [join, isOutput, if_true, List.mem_cons] at mem
        rcases mem with rfl | mem
        · unfold clearOutput
          split
          · exact isDone
          · exact isDone
        · exact doneAfter other mem

theorem handed_of_done (link : Link size data mid inp' next)
    (isDone : ioFilterDone data.filter = true) (notBusy : ∀ c, next ≠ .busy c) :
    (nullOutput data).filter = data.filter ∧ (nullOutput data).output = none ∧
      Handed size (nullOutput data) mid inp' next := by
  cases next with
  | idle =>
    obtain ⟨b, isOutput, rfl, -, empty⟩ := link
    obtain rfl := empty isDone
    have isNull : nullOutput data = ⟨data.filter, none⟩ := by
      simp [nullOutput, isOutput, isDone]
    rw [isNull]
    exact ⟨rfl, rfl, .inr ⟨rfl, by simp, isDone, .inl rfl⟩⟩
  | busy c => exact absurd rfl (notBusy c)
  | flushing =>
    obtain ⟨isOutput, rfl, -⟩ := link
    have isNull : nullOutput data = data := by
      simp [nullOutput, isOutput]
    rw [isNull]
    exact ⟨rfl, isOutput, .inr ⟨isOutput, rfl, isDone, .inr rfl⟩⟩

theorem handed_of_full {g : IoFilter} {b : Bytes} (inp' : Bytes) (positive : 0 < size)
    (isFull : ¬ (!bufFull ⟨b, size⟩ && !ioFilterDone g) = true) :
    (nullOutput ⟨g, some ⟨b, size⟩⟩).filter = g ∧
      Handed size (nullOutput ⟨g, some ⟨b, size⟩⟩) (inp' ++ b) inp' .idle := by
  by_cases isNil : ioFilterDone g = true ∧ b = []
  · obtain ⟨isDone, rfl⟩ := isNil
    have isNull : nullOutput ⟨g, some ⟨[], size⟩⟩ = ⟨g, none⟩ := by
      simp [nullOutput, isDone]
    rw [isNull]
    exact ⟨rfl, .inr ⟨rfl, by simp, isDone, .inl rfl⟩⟩
  · have nonempty : b ≠ [] := by
      rintro rfl
      have notDone : ioFilterDone g = false := by simpa using isNil
      have notFull : bufFull ⟨[], size⟩ = false := by
        simp [bufFull, bufRemains]
        omega
      rw [notDone, notFull] at isFull
      exact isFull rfl
    have isSame : nullOutput ⟨g, some ⟨b, size⟩⟩ = ⟨g, some ⟨b, size⟩⟩ := by
      simp [nullOutput, nonempty]
    rw [isSame]
    exact ⟨rfl, .inl ⟨b, nonempty, positive, rfl, rfl, rfl⟩⟩

section InOut
variable {f : Bytes → Bytes} {first : IoFilter} {data : IoFilterData} {rest : List IoFilterData}
  {next : Slot} {mid inp' : Bytes} {input : Option Bytes} {output : Buffer}

theorem forward_done (honours : Honours f first) (reach : Reach first data.filter slot inp mid)
    (link : Link size data mid inp' next) (chain : Chain size specs rest next inp' out places)
    (allowed : Allowed slot input) (notBusy : ∀ c, next ≠ .busy c)
    (isDone : ioFilterDone data.filter = true)
    (ih : ∀ {input}, Allowed next input → ∃ pass, forward rest input output = .ok pass ∧
      Passed size specs rest next input inp' out places output pass) :
    ∃ pass, forward (data :: rest) input output = .ok pass ∧
      Passed size ((.inOut f, first) :: specs) (data :: rest) slot input inp out
        ((data.filter, slot) :: places) output pass := by
  have isFlushing := reach_done honours reach isDone
  subst isFlushing
  cases allowed
  obtain ⟨sameFilter, isNull, handed⟩ := handed_of_done link isDone notBusy
  rw [← sameFilter] at reach
  obtain ⟨pass, run, isConsumed, written, places', isWritten, fits, after, -, progress⟩ :=
    handed.pass honours reach chain none false false (ih handed.allowed)
  rw [sameFilter] at after
  refine ⟨pass, ?_, written, (data.filter, .flushing) :: places', isWritten, fits, ?_, ?_⟩
  · rw [forward, if_pos isDone]
    exact run
  · simpa [nextSlot, fresh] using after
  · rcases progress with less | given | ⟨doneBefore, isNil, doneAfter⟩
    · exact .inl less.cons
    · exact absurd isNull given
    · refine .inr (.inr ⟨?_, isNil, doneAfter⟩)
      intro other mem
      rcases List.mem_cons.mp mem with rfl | mem
      · exact isDone
      · exact doneBefore other mem

theorem forward_called (honours : Honours f first) (reach : Reach first data.filter slot inp mid)
    (link : Link size data mid inp' next) (chain : Chain size specs rest next inp' out places)
    (allowed : Allowed slot input) (notBusy : ∀ c, next ≠ .busy c)
    (notDone : ioFilterDone data.filter = false)
    (ih : ∀ {input}, Allowed next input → ∃ pass, forward rest input output = .ok pass ∧
      Passed size specs rest next input inp' out places output pass) :
    ∃ pass, forward (data :: rest) input output = .ok pass ∧
      Passed size ((.inOut f, first) :: specs) (data :: rest) slot input inp out
        ((data.filter, slot) :: places) output pass := by
  have isOutput := (reach_place honours reach).2.1
  have notLast := chain.nonempty
  have isIdle : next = .idle := by
    cases next with
    | idle => rfl
    | busy c => exact absurd rfl (notBusy c)
    | flushing => exact absurd (link.2.2.symm.trans notDone) (by simp)
  subst isIdle
  obtain ⟨b, isBuffer, rfl, short, -⟩ := link
  have isTarget : target data rest.isEmpty output = ⟨b, size⟩ := by
    simp [target, notLast, isBuffer]
  have room' : 0 < bufRemains ⟨b, size⟩ := by
    change 0 < size - b.length
    omega
  obtain ⟨g, o, called, fits, isOutput', after, descends⟩ :=
    processInOut_spec honours reach allowed notDone room'
  have head : ∀ places', places'.length = places.length →
      List.Shortlex Descends ((g, nextSlot input (ioFilterInputSame g)) :: places')
        ((data.filter, slot) :: places) ∨ (slot = .idle ∧ input ≠ none) := by
    intro places' same
    by_cases isNew : slot = .idle ∧ input ≠ none
    · exact .inr isNew
    · exact .inl (List.Shortlex.of_lex (by simp [same]) (List.Lex.rel (descends isNew)))
  have start : forward (data :: rest) input output =
      if !bufFull ⟨b ++ o, size⟩ && !ioFilterDone g then
        .ok ⟨⟨g, some ⟨b ++ o, size⟩⟩ :: rest, output, !ioFilterInputSame g, ioFilterInputSame g⟩
      else
        (forward rest (downstream (nullOutput ⟨g, some ⟨b ++ o, size⟩⟩) input) output).bind
          fun pass => .ok (join (nullOutput ⟨g, some ⟨b ++ o, size⟩⟩) (!ioFilterInputSame g)
            (ioFilterInputSame g) pass) := by
    rw [forward, if_neg (by simp [notDone]), if_pos isOutput, isTarget, called]
    simp [notLast]
  by_cases early : (!bufFull ⟨b ++ o, size⟩ && !ioFilterDone g) = true
  · refine ⟨_, start.trans (if_pos early), [],
      (g, nextSlot input (ioFilterInputSame g)) :: places, by simp, Nat.zero_le _, ?_,
      (head places rfl).imp id .inl⟩
    dsimp only
    rw [Bool.not_not, List.append_nil]
    have notFull : (b ++ o).length < size := by
      by_contra full
      have isFull : bufFull ⟨b ++ o, size⟩ = true := decide_eq_true (Nat.sub_eq_zero_of_le (Nat.le_of_not_lt full))
      simp [isFull] at early
    have link' : Link size ⟨g, some ⟨b ++ o, size⟩⟩ (inp' ++ b ++ o) inp' .idle := by
      refine ⟨b ++ o, rfl, by simp, notFull, ?_⟩
      intro isDone
      simp [isDone] at early
    exact Chain.inOut honours after link' chain
  · obtain ⟨sameFilter, handed⟩ := handed_of_full inp' (by omega) early
    rw [List.append_assoc, ← sameFilter] at after
    obtain ⟨pass, run, isConsumed, written, places', isWritten, fits', chain', sameLength, -⟩ :=
      handed.pass honours after chain input (!ioFilterInputSame g) (ioFilterInputSame g)
        (ih handed.allowed)
    rw [sameFilter] at chain'
    refine ⟨pass, (start.trans (if_neg early)).trans run, written,
      (g, nextSlot input (ioFilterInputSame g)) :: places', isWritten, fits', ?_,
      (head places' sameLength).imp id .inl⟩
    rw [isConsumed, Bool.not_not]
    exact chain'

end InOut

theorem forward_spec (chain : Chain size specs nodes slot inp out places)
    (allowed : Allowed slot input)
    (quiet : ∀ data ∈ nodes.tail, ioFilterInputSame data.filter = false)
    (room : 0 < bufRemains output) :
    ∃ pass, forward nodes input output = .ok pass ∧
      Passed size specs nodes slot input inp out places output pass := by
  induction chain generalizing input with
  | last honours reach => exact forward_last size honours reach allowed room
  | observe observes observed chain ih =>
    exact forward_observe observes observed chain allowed quiet
      (ih allowed (fun data mem => quiet data (List.mem_of_mem_tail mem)))
  | @inOut f first data specs rest slot next inp mid inp' out places honours reach link chain ih =>
    have notBusy : ∀ c, next ≠ .busy c := by
      intro c isBusy
      obtain ⟨data, mem, same⟩ := chain.busy_same isBusy
      rw [quiet data mem] at same
      cases same
    have later : ∀ {input}, Allowed next input → ∃ pass, forward rest input output = .ok pass ∧
        Passed size specs rest next input inp' out places output pass :=
      fun allowed => ih allowed (fun data mem => quiet data (List.mem_of_mem_tail mem))
    cases isDone : ioFilterDone data.filter with
    | true => exact forward_done honours reach link chain allowed notBusy isDone later
    | false => exact forward_called honours reach link chain allowed notBusy isDone later

/-! ## A pass that starts again where the same input is needed -/

def anySame (nodes : List IoFilterData) : Bool := nodes.any fun data => ioFilterInputSame data.filter

theorem anySame_eq_false : anySame nodes = false ↔
    ∀ data ∈ nodes, ioFilterInputSame data.filter = false := by
  simp [anySame]

theorem resume_none (quiet : anySame nodes = false) (input : Option Bytes) (output : Buffer) :
    resume nodes input output = none := by
  induction nodes generalizing input with
  | nil => rfl
  | cons data rest ih =>
    rw [anySame, List.any_cons, Bool.or_eq_false_iff] at quiet
    rw [resume, ih quiet.2, quiet.1]
    rfl

/-- A filter that is to start again finds the input it has not used up. -/
def Again (slot : Slot) (input : Option Bytes) : Prop :=
  match slot with
  | .idle => True
  | .busy c => input = some c
  | .flushing => input = none

def afterResume (slot : Slot) (consumed : Bool) : Slot :=
  match slot with
  | .busy c => if consumed then .idle else .busy c
  | other => other

/-- What a pass leaves that starts again in the middle of a chain. -/
def Resumed (size : Nat) (specs : List (FilterSpec × IoFilter)) (slot : Slot) (inp out : Bytes)
    (places : List (IoFilter × Slot)) (output : Buffer) (pass : Pass) : Prop :=
  ∃ written places', pass.output = ⟨output.used ++ written, output.size⟩ ∧
    written.length ≤ bufRemains output ∧
    Chain size specs pass.filterList (afterResume slot pass.consumed) inp (out ++ written) places' ∧
    List.Shortlex Descends places' places ∧ (slot = .idle → pass.consumed = false)

theorem Again.allowed (honours : Honours f first) (reach : Reach first this slot inp out)
    (same : ioFilterInputSame this = true) (again : Again slot input) :
    Allowed slot input ∧ slot ≠ .idle := by
  obtain ⟨-, -, notIdle, isBusy⟩ := reach_place honours reach
  cases slot with
  | idle => exact absurd (same.symm.trans (notIdle rfl)) (by simp)
  | busy c =>
    obtain rfl : input = some c := again
    exact ⟨Allowed.again (isBusy c rfl).2, nofun⟩
  | flushing =>
    obtain rfl : input = none := again
    exact ⟨Allowed.flushAgain, nofun⟩

theorem resumed_of_passed (honours : Honours f first) (reach : Reach first data.filter slot inp mid)
    (same : ioFilterInputSame data.filter = true) (again : Again slot input) {pass : Pass}
    (passed : Passed size specs (data :: rest) slot input inp out places output pass) :
    Resumed size specs slot inp out places output pass := by
  obtain ⟨written, places', isWritten, fits, after, progress⟩ := passed
  obtain ⟨-, notIdle⟩ := again.allowed honours reach same
  refine ⟨written, places', isWritten, fits, ?_, ?_, fun isIdle => absurd isIdle notIdle⟩
  · cases slot with
    | idle => exact absurd rfl notIdle
    | busy c =>
      obtain rfl : input = some c := again
      have nothing : fresh (.busy c) (some c) = [] := rfl
      rw [nothing, List.append_nil] at after
      cases isConsumed : pass.consumed with
      | true =>
        rw [isConsumed] at after
        exact after
      | false =>
        rw [isConsumed] at after
        exact after
    | flushing =>
      obtain rfl : input = none := again
      have nothing : fresh .flushing none = [] := rfl
      rw [nothing, List.append_nil] at after
      exact after
  · rcases progress with less | ⟨isIdle, -⟩ | ⟨isDone, -⟩
    · exact less
    · exact absurd isIdle notIdle
    · have notSame := (honours.done reach (isDone data List.mem_cons_self)).2
      rw [same] at notSame
      cases notSame

theorem Resumed.after (honours : Honours f first) (reach : Reach first data.filter slot inp mid)
    (link : Link size data mid inp' next) {pass : Pass}
    (resumed : Resumed size specs next inp' out places output pass) :
    Resumed size ((.inOut f, first) :: specs) slot inp out ((data.filter, slot) :: places) output
      (join data false false pass) := by
  have isOutput := (reach_place honours reach).2.1
  obtain ⟨written, places', isWritten, fits, after, less, unused⟩ := resumed
  have notConsumed : (join data false false pass).consumed = false := by simp [join, isOutput]
  have sameSlot : afterResume slot false = slot := by cases slot <;> rfl
  have filters : (join data false false pass).filterList =
      clearOutput data pass.consumed :: pass.filterList := by simp [join, isOutput]
  refine ⟨written, (data.filter, slot) :: places', isWritten, fits, ?_, less.cons,
    fun _ => notConsumed⟩
  rw [notConsumed, sameSlot, filters]
  have cleared : (clearOutput data pass.consumed).filter = data.filter := by
    unfold clearOutput
    split <;> rfl
  have link' : Link size (clearOutput data pass.consumed) mid inp' (afterResume next pass.consumed) := by
    cases next with
    | idle =>
      rw [unused rfl]
      exact link
    | busy c =>
      obtain ⟨isBuffer, isMid, positive⟩ := link
      cases pass.consumed with
      | true => exact ⟨[], by simp [clearOutput, isBuffer], by simp [isMid], positive, fun _ => rfl⟩
      | false => exact ⟨isBuffer, isMid, positive⟩
    | flushing =>
      obtain ⟨isNull, isMid, isDone⟩ := link
      refine ⟨?_, isMid, ?_⟩
      · unfold clearOutput
        split
        · simp [isNull]
        · exact isNull
      · rw [cleared]
        exact isDone
  rw [← cleared] at reach ⊢
  exact Chain.inOut honours reach link' after

theorem resume_spec (chain : Chain size specs nodes slot inp out places) (again : Again slot input)
    (isSame : anySame nodes = true) (room : 0 < bufRemains output) :
    ∃ pass, resume nodes input output = some (.ok pass) ∧
      Resumed size specs slot inp out places output pass := by
  induction chain generalizing input with
  | @last f first this slot inp out honours reach =>
    have same : ioFilterInputSame this = true := by simpa [anySame] using isSame
    have allowed := (again.allowed honours reach same).1
    obtain ⟨pass, run, passed⟩ := forward_last size honours reach allowed room
    refine ⟨pass, ?_, resumed_of_passed honours reach same again passed⟩
    rw [resume, resume, if_pos same, run]
  | @observe first this specs rest slot inp out places observes observed chain ih =>
    obtain ⟨isOutput, notSame, -⟩ := observed_place observes observed
    have later : anySame rest = true := by simpa [anySame, notSame] using isSame
    obtain ⟨pass, run, written, places', isWritten, fits, after, less, unused⟩ := ih again later
    have isDownstream : downstream ⟨this, none⟩ input = input := if_neg (by simp [isOutput])
    refine ⟨join ⟨this, none⟩ false false pass, ?_, written, places', isWritten, fits, ?_, less, ?_⟩
    · rw [resume, isDownstream, run]
      rfl
    · have joined : join ⟨this, none⟩ false false pass =
          ⟨⟨this, none⟩ :: pass.filterList, pass.output, pass.consumed, pass.inputSame⟩ := by
        simp [join, isOutput]
      have sameFlushing : (afterResume slot pass.consumed).isFlushing = slot.isFlushing := by
        cases slot with
        | idle => rfl
        | busy c => cases pass.consumed <;> rfl
        | flushing => rfl
      rw [joined]
      refine Chain.observe observes ?_ after
      rw [sameFlushing]
      exact observed
    · intro isIdle
      simp [join, isOutput, unused isIdle]
  | @inOut f first data specs rest slot next inp mid inp' out places honours reach link chain ih =>
    have isOutput := (reach_place honours reach).2.1
    have isDownstream : downstream data input = data.output.map Buffer.used := if_pos isOutput
    cases later : anySame rest with
    | true =>
      have againNext : Again next (data.output.map Buffer.used) := by
        cases next with
        | idle => trivial
        | busy c =>
          rw [link.1]
          rfl
        | flushing =>
          rw [link.1]
          rfl
      obtain ⟨pass, run, resumed⟩ := ih againNext later
      refine ⟨join data false false pass, ?_, resumed.after honours reach link⟩
      rw [resume, isDownstream, run]
      rfl
    | false =>
      have same : ioFilterInputSame data.filter = true := by
        rw [anySame] at isSame later
        rw [List.any_cons, later, Bool.or_false] at isSame
        exact isSame
      obtain ⟨pass, run, passed⟩ := forward_spec (Chain.inOut honours reach link chain)
        (again.allowed honours reach same).1 (anySame_eq_false.mp later) room
      refine ⟨pass, ?_, resumed_of_passed honours reach same again passed⟩
      rw [resume, resume_none later, if_pos same, run]

end Pass

/-! ## All passes of one call -/

section Process
variable {size : Nat} {specs : List (FilterSpec × IoFilter)} {slot : Slot} {inp out : Bytes}
  {places : List (IoFilter × Slot)} {input : Option Bytes}

theorem Again.afterResume (again : Again slot input) (consumed : Bool) :
    Again (afterResume slot consumed) input := by
  cases slot with
  | idle => trivial
  | busy c =>
    cases consumed with
    | true => trivial
    | false => exact again
  | flushing => exact again

theorem afterResume_flushing {consumed : Bool} :
    FilterGroup.afterResume slot consumed = .flushing ↔ slot = .flushing := by
  cases slot with
  | idle => simp [FilterGroup.afterResume]
  | busy c => cases consumed <;> simp [FilterGroup.afterResume]
  | flushing => simp [FilterGroup.afterResume]

/-- Less is left to do. -/
def Fewer : List (IoFilter × Slot) → List (IoFilter × Slot) → Prop :=
  Relation.TransGen (List.Shortlex Descends)

theorem fewer_wf : WellFounded Fewer := (List.Shortlex.wf descends_wf).transGen

/-- The chain and the output buffer after more passes over the same input. -/
def Later (size : Nat) (specs : List (FilterSpec × IoFilter)) (slot : Slot) (inp out : Bytes)
    (places : List (IoFilter × Slot)) (input : Option Bytes) (nodes : List IoFilterData)
    (output : Buffer) (nodes' : List IoFilterData) (output' : Buffer) : Prop :=
  ∃ written slot' places', output' = ⟨output.used ++ written, output.size⟩ ∧
    written.length ≤ bufRemains output ∧
    Chain size specs nodes' slot' inp (out ++ written) places' ∧ Again slot' input ∧
    (slot' = .flushing ↔ slot = .flushing) ∧
    (anySame nodes = true → Fewer places' places) ∧
    (anySame nodes = false → nodes' = nodes ∧ written = [] ∧ places' = places)

theorem bufRemains_append (output : Buffer) {written : Bytes}
    (fits : written.length ≤ bufRemains output) :
    bufRemains ⟨output.used ++ written, output.size⟩ + written.length = bufRemains output := by
  simp only [bufRemains, List.length_append] at *
  omega

variable {output : Buffer} {nodes : List IoFilterData}

theorem bufFull_eq_false : bufFull output = false ↔ 0 < bufRemains output := by
  simp [bufFull]

theorem Later.of_resumed {nodes' : List IoFilterData} {output' : Buffer} {pass : Pass}
    (isSame : anySame nodes = true) {written : Bytes} {places' : List (IoFilter × Slot)}
    (isWritten : pass.output = ⟨output.used ++ written, output.size⟩)
    (fits : written.length ≤ bufRemains output) (less : List.Shortlex Descends places' places)
    (later : Later size specs (FilterGroup.afterResume slot pass.consumed) inp (out ++ written)
      places' input pass.filterList pass.output nodes' output') :
    Later size specs slot inp out places input nodes output nodes' output' := by
  obtain ⟨more, slot', places'', isMore, fits', chain, again', isFlushing, fewer, unchanged⟩ := later
  have room := bufRemains_append output fits
  rw [isWritten] at isMore fits'
  refine ⟨written ++ more, slot', places'', by simp [isMore], ?_, by simpa using chain, again',
    isFlushing.trans afterResume_flushing, fun _ => ?_, fun notSame => ?_⟩
  · rw [List.length_append]
    omega
  · cases isSame' : anySame pass.filterList with
    | true => exact (fewer isSame').tail less
    | false =>
      rw [(unchanged isSame').2.2]
      exact Relation.TransGen.single less
  · rw [isSame] at notSame
    cases notSame

theorem Later.refl (chain : Chain size specs nodes slot inp out places) (again : Again slot input)
    (notSame : anySame nodes = false) :
    Later size specs slot inp out places input nodes output nodes output :=
  ⟨[], slot, places, by simp, Nat.zero_le _, by simpa using chain, again, Iff.rfl,
    fun isSame => absurd (isSame.symm.trans notSame) (by simp), fun _ => ⟨rfl, rfl, rfl⟩⟩

theorem rounds_spec (chain : Chain size specs nodes slot inp out places) (again : Again slot input)
    (room : 0 < bufRemains output) :
    ∃ round, LoopReturns (fun _ => processRound input) ⟨nodes, output, true⟩ round ∧
      Later size specs slot inp out places input nodes output round.filterList round.output := by
  induction places using (List.Shortlex.wf descends_wf).induction generalizing nodes output slot out with
  | _ places ih =>
    cases isSame : anySame nodes with
    | false =>
      refine ⟨⟨nodes, output, false⟩, .stop (.of_eq fun _ => ?_), .refl chain again isSame⟩
      rw [processRound, if_pos rfl, resume_none isSame]
    | true =>
      obtain ⟨pass, run, written, places', isWritten, fits, after, less, -⟩ :=
        resume_spec chain again isSame room
      have again' := again.afterResume pass.consumed
      have round : processRound input ⟨nodes, output, true⟩ =
          roundEnd ⟨pass.filterList, pass.output, true⟩ := by
        rw [processRound, if_pos rfl, run]
        rfl
      cases isFull : bufFull pass.output with
      | true =>
        refine ⟨⟨pass.filterList, pass.output, true⟩, .stop (.of_eq fun _ => ?_), ?_⟩
        · rw [round, roundEnd, isFull]
          rfl
        · exact ⟨written, _, places', isWritten, fits, after, again', afterResume_flushing,
            fun _ => Relation.TransGen.single less,
            fun notSame => absurd (isSame.symm.trans notSame) (by simp)⟩
      | false =>
        obtain ⟨last, loops, later⟩ := ih places' less after again' (bufFull_eq_false.mp isFull)
        refine ⟨last, loops.next (.of_eq fun _ => ?_),
          .of_resumed isSame isWritten fits less later⟩
        rw [round, roundEnd, isFull]
        rfl

end Process

end FilterGroup
