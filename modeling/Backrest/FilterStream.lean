import Backrest.ReadSequence
import Backrest.WriteStream

/-!
# Streams through filter groups

However a stream is cut into buffers, and whatever the sizes of the buffers on its way
are, an IoWrite and an IoRead pass on the composition of their in-out filters, and the
in-only filters see the bytes at their place in the chain.
-/

namespace FilterStream

open Text FuelLoop StreamFilter FilterGroup WriteStream ReadStream ReadSequence

/-- Reads with buffers of these sizes, with what each of them returns. -/
def ioReads (fuel : Nat) : IoRead → List Nat → Outcome Error (IoRead × List Bytes)
  | this, [] => .ok (this, [])
  | this, size :: sizes =>
    (ioRead fuel this ⟨[], size⟩).bind fun first =>
      (ioReads fuel first.1 sizes).bind fun rest => .ok (rest.1, first.2.used :: rest.2)

section Reads
variable {specs : List (FilterSpec × IoFilter)} {stream rest : Bytes} {this : IoRead}

/-- Nothing changes the end. -/
theorem ioRead_eof (isEof : this.eofAll = true) (buffer : Buffer) :
    Returns (fun fuel => ioRead fuel this buffer) (copyOutput this buffer) := by
  refine ⟨1, fun fuel enough => ?_⟩
  obtain ⟨fuel, rfl⟩ : ∃ n, fuel = n + 1 := ⟨fuel - 1, by omega⟩
  have isEof' : (copyOutput this buffer).1.eofAll = true := isEof
  exact ioReadInternal_eof isEof' fuel true

theorem ioReads_spec (sizes : List Nat) (pending : Pending specs stream this rest) :
    ∃ after results, Returns (fun fuel => ioReads fuel this sizes) (after, results) ∧
      results.flatten = rest.take sizes.sum ∧
      Pending specs stream after (rest.drop sizes.sum) ∧ after.output = this.output ∧
      (rest.length < sizes.sum ∨ this.eofAll = true → after.eofAll = true) := by
  induction sizes generalizing this rest with
  | nil =>
    exact ⟨this, [], .of_eq fun _ => rfl, by simp, by simpa using pending, rfl,
      fun ended => ended.resolve_left (Nat.not_lt_zero _)⟩
  | cons size sizes ih =>
    obtain ⟨⟨next, buffer⟩, returns, isBuffer, pending', -, same, isEof⟩ := ioRead_spec pending ⟨[], size⟩
    have room : bufRemains ⟨[], size⟩ = size := rfl
    rw [room] at isBuffer pending' isEof
    dsimp only at isBuffer
    obtain ⟨after, results, returns', areResults, pending'', same', isEof'⟩ := ih pending'
    refine ⟨after, rest.take size :: results, ?_, ?_, ?_, same'.trans same, fun ended => isEof' ?_⟩
    · subst isBuffer
      exact returns.bind (returns'.bind (.of_eq fun _ => rfl))
    · rw [List.flatten_cons, areResults, List.sum_cons, List.take_add]
    · rw [List.sum_cons, ← List.drop_drop]
      exact pending''
    · rcases ended with short | before
      · rw [List.sum_cons] at short
        by_cases few : rest.length < size
        · exact .inr (isEof few)
        · left
          rw [List.length_drop]
          omega
      · right
        have isCopied := returns.unique (ioRead_eof before _)
        have kept : (copyOutput this ⟨[], size⟩).1.eofAll = true := before
        rw [← isCopied] at kept
        exact kept

end Reads

/-! ## A filter that looks at the stream -/

def ioSizeProcess (size : Nat) (input : Bytes) : Nat := size + input.length

def ioSizeNew : IoFilter where
  State := Nat
  interface := { processIn := some ioSizeProcess }
  driver := 0

theorem ioSizeNew_observes : Observes ioSizeNew := ⟨rfl, rfl, rfl, rfl, rfl⟩

/-! ## Streams -/

section Streams
variable {specs : List (FilterSpec × IoFilter)} {bufferSize : Nat}

theorem writeAt_open (positive : 0 < bufferSize) (honoured : ∀ spec ∈ specs, Honoured spec) :
    ∃ places, WriteAt bufferSize (withBufferSpec specs) .idle [] [] places
      (ioWriteOpen bufferSize (specs.map Prod.snd)) := by
  obtain ⟨places, group⟩ := groupAt_open positive specs honoured
  exact ⟨places, group, rfl, positive, positive⟩

theorem ioWriteAll_compose (positive : 0 < bufferSize) (honoured : ∀ spec ∈ specs, Honoured spec)
    (buffers : List Bytes) :
    ∃ this, Returns (fun fuel =>
        ioWriteAll fuel (ioWriteOpen bufferSize (specs.map Prod.snd)) buffers) this ∧
      this.driver.flatten = compose specs buffers.flatten ∧ this.filterGroup.done = true ∧
      AllObserved (withBufferSpec specs) this.filterGroup.filterList buffers.flatten := by
  obtain ⟨places, at_⟩ := writeAt_open positive honoured
  obtain ⟨this, returns, isDone, whole, observed⟩ := ioWriteAll_spec buffers at_ rfl
  rw [List.nil_append, compose_withBufferSpec] at whole
  exact ⟨this, returns, whole, isDone, observed⟩

/-- What is read comes from the driver through the filters. -/
theorem ioReads_compose (positive : 0 < bufferSize) (honoured : ∀ spec ∈ specs, Honoured spec)
    (block : Bool) (fragments : List Bytes) (sizes : List Nat) :
    ∃ this results, Returns (fun fuel =>
        ioReads fuel (ioReadOpen bufferSize block (specs.map Prod.snd) fragments) sizes) (this, results) ∧
      results.flatten = (compose specs fragments.flatten).take sizes.sum ∧
      ((compose specs fragments.flatten).length < sizes.sum → ioReadEof this = true) ∧
      (ioReadEof this = true → results.flatten = compose specs fragments.flatten ∧
        this.filterGroup.done = true ∧
        AllObserved (withBufferSpec specs) this.filterGroup.filterList fragments.flatten) := by
  obtain ⟨this, results, returns, areResults, ⟨⟨tail, ahead, isRest⟩, -⟩, isOutput, isEof⟩ :=
    ioReads_spec sizes (pending_open positive block honoured fragments)
  refine ⟨this, results, returns, areResults, fun short => isEof (.inl short), fun ended => ?_⟩
  obtain ⟨isDone, observed⟩ := ahead.observed ended
  refine ⟨?_, isDone, observed⟩
  have noOutput : retained this = [] := by
    rw [retained, isOutput]
    exact List.drop_nil
  rw [noOutput, ahead.eof ended] at isRest
  rw [areResults]
  exact List.take_of_length_le (List.drop_eq_nil_iff.mp isRest)

end Streams

end FilterStream
