import Backrest.FuelLoop
import Backrest.Text

/-!
# Filters

A filter changes a byte stream (in-out) or looks at it (in-only). An in-out filter gets
its input one buffer at a time and writes to an output buffer. When that is full it asks
for the same input again, and when the input has ended it is flushed until it is done.
`Honours` says what a filter that follows these rules computes, in terms of the calls
that a filter group may make.
-/

namespace StreamFilter

open Text FuelLoop

abbrev Bytes := List UInt8

structure Buffer where
  used : Bytes
  size : Nat
  deriving DecidableEq

def bufRemains (this : Buffer) : Nat := this.size - this.used.length

def bufFull (this : Buffer) : Bool := bufRemains this = 0

/-- The functions of a filter, as a filter may define them. -/
structure IoFilterInterface (σ : Type) where
  done : Option (σ → Bool) := none
  processIn : Option (σ → Bytes → σ) := none
  /-- Takes the input, or nothing in a flush, and the space in the output buffer. -/
  processInOut : Option (σ → Option Bytes → Nat → σ × Bytes) := none
  inputSame : Option (σ → Bool) := none

structure IoFilter where
  State : Type
  interface : IoFilterInterface State
  driver : State
  flushing : Bool := false

def ioFilterOutput (this : IoFilter) : Bool := this.interface.processInOut.isSome

def ioFilterInputSame (this : IoFilter) : Bool :=
  match this.interface.inputSame with
  | some inputSame => inputSame this.driver
  | none => false

def ioFilterDone (this : IoFilter) : Bool :=
  if this.flushing then
    match this.interface.done with
    | some done => done this.driver
    | none => !ioFilterInputSame this
  else
    false

def check (condition : Bool) (text : Str) : Outcome Error PUnit.{2} :=
  if condition then .ok ⟨⟩
  else .error ⟨.assertError, "check '".toList ++ text ++ "' failed".toList⟩

theorem check_ok {condition : Bool} (holds : condition = true) (text : Str) :
    check condition text = .ok ⟨⟩ :=
  if_pos holds

/-- The checks that both process functions start with. -/
def checkInput (this : IoFilter) (input : Option Bytes) : Outcome Error PUnit.{2} :=
  (check (input ≠ some []) "input == NULL || !bufEmpty(input)".toList).bind fun _ =>
    check (!this.flushing || input.isNone) "!this->flushing || input == NULL".toList

theorem checkInput_ok {this : IoFilter} {input : Option Bytes} (nonempty : input ≠ some [])
    (ended : this.flushing = true → input = none) : checkInput this input = .ok ⟨⟩ := by
  rw [checkInput, check_ok (decide_eq_true nonempty), Outcome.ok_bind, check_ok]
  cases isFlushing : this.flushing with
  | false => rfl
  | true =>
    rw [ended isFlushing]
    rfl

/-- A call of the in function. -/
def callIn (this : IoFilter) (input : Bytes) : IoFilter :=
  match this.interface.processIn with
  | some processIn => { this with driver := processIn this.driver input }
  | none => this

def ioFilterProcessIn (this : IoFilter) (input : Option Bytes) : Outcome Error IoFilter :=
  (checkInput this input).bind fun _ =>
    match input with
    | none => .ok { this with flushing := true }
    | some input => .ok (callIn this input)

/-- A call of the in-out function, with what it adds to the output. -/
def callInOut (this : IoFilter) (input : Option Bytes) (room : Nat) : IoFilter × Bytes :=
  let this := { this with flushing := this.flushing || input.isNone }
  if ioFilterDone this then (this, [])
  else
    match this.interface.processInOut with
    | some processInOut =>
      ({ this with driver := (processInOut this.driver input room).1 },
        (processInOut this.driver input room).2)
    | none => (this, [])

def ioFilterProcessInOut (this : IoFilter) (input : Option Bytes) (output : Buffer) :
    Outcome Error (IoFilter × Buffer) :=
  (checkInput this input).bind fun _ =>
    let called := callInOut this input (bufRemains output)
    let output := { output with used := output.used ++ called.2 }
    (check (!ioFilterInputSame called.1 || !output.used.isEmpty)
      "!ioFilterInputSame(this) || !bufEmpty(output)".toList).bind fun _ =>
        .ok (called.1, output)

/-! ## The buffer filter -/

structure IoBuffer where
  inputPos : Nat := 0
  inputSame : Bool := false
  deriving DecidableEq

def ioBufferProcess (this : IoBuffer) (input : Option Bytes) (room : Nat) : IoBuffer × Bytes :=
  -- The input is never missing here: the filter is done as soon as it is flushed.
  let input := input.getD []
  let copySize := min (input.length - this.inputPos) room
  let copied := (input.drop this.inputPos).take copySize
  if this.inputPos + copySize = input.length then ({ inputPos := 0, inputSame := false }, copied)
  else ({ inputPos := this.inputPos + copySize, inputSame := true }, copied)

def ioBufferNew : IoFilter where
  State := IoBuffer
  interface := { processInOut := some ioBufferProcess, inputSame := some IoBuffer.inputSame }
  driver := {}

/-! ## Filters that follow the rules -/

/-- Where a filter is with its input: it wants new input, or the same again, or is flushed. -/
inductive Slot where
  | idle
  | busy (input : Bytes)
  | flushing

def Slot.isFlushing : Slot → Bool
  | .flushing => true
  | _ => false

/-- The calls that may be made. -/
inductive Allowed : Slot → Option Bytes → Prop where
  | input {c : Bytes} (nonempty : c ≠ []) : Allowed .idle (some c)
  | again {c : Bytes} (nonempty : c ≠ []) : Allowed (.busy c) (some c)
  | flush : Allowed .idle none
  | flushAgain : Allowed .flushing none

/-- The input that a call gives for the first time. -/
def fresh : Slot → Option Bytes → Bytes
  | .idle, some c => c
  | _, _ => []

def nextSlot (input : Option Bytes) (inputSame : Bool) : Slot :=
  match input with
  | none => .flushing
  | some c => if inputSame then .busy c else .idle

/-- A filter after some calls, with what it was given and what it has written. -/
inductive Reach (first : IoFilter) : IoFilter → Slot → Bytes → Bytes → Prop where
  | start : Reach first first .idle [] []
  | call {this : IoFilter} {slot : Slot} {inp out : Bytes} {input : Option Bytes} {room : Nat}
    (before : Reach first this slot inp out) (allowed : Allowed slot input) (positive : 0 < room)
    (notDone : ioFilterDone this = false) :
    Reach first (callInOut this input room).1
      (nextSlot input (ioFilterInputSame (callInOut this input room).1))
      (inp ++ fresh slot input) (out ++ (callInOut this input room).2)

/-- A call that is made because the filter asked for the same input, or in the flush. -/
def Step (after before : IoFilter × Slot) : Prop :=
  ∃ input room, Allowed before.2 input ∧ (before.2 = .idle → input = none) ∧ 0 < room ∧
    ioFilterDone before.1 = false ∧ after.1 = (callInOut before.1 input room).1 ∧
    after.2 = nextSlot input (ioFilterInputSame after.1)

/-- An in-out filter that computes a function on byte streams. -/
structure Honours (f : Bytes → Bytes) (first : IoFilter) : Prop where
  isOutput : ioFilterOutput first = true
  notFlushing : first.flushing = false
  notSame : ioFilterInputSame first = false
  /-- A call writes what there is space for. -/
  fits : ∀ {this slot inp out input room}, Reach first this slot inp out → Allowed slot input →
    0 < room → ioFilterDone this = false → (callInOut this input room).2.length ≤ room
  /-- The same input is asked for again only after something was written. -/
  same : ∀ {this slot inp out input room}, Reach first this slot inp out → Allowed slot input →
    0 < room → ioFilterDone this = false →
    ioFilterInputSame (callInOut this input room).1 = true → (callInOut this input room).2 ≠ []
  /-- A filter is done when it has written everything. -/
  done : ∀ {this slot inp out}, Reach first this slot inp out → ioFilterDone this = true →
    out = f inp ∧ ioFilterInputSame this = false
  /-- An input is used up, and a flush is done, after finitely many calls. -/
  ends : ∀ {this slot inp out}, Reach first this slot inp out → Acc Step (this, slot)

structure Observes (first : IoFilter) : Prop where
  isInput : first.interface.processIn.isSome = true
  notOutput : ioFilterOutput first = false
  noSame : first.interface.inputSame = none
  noDone : first.interface.done = none
  notFlushing : first.flushing = false

end StreamFilter
