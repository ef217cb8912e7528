import Backrest.GroupProcess

/-!
# Reading through filters

The driver hands out a stream in fragments of its own choice. `ioReadInternal` reads them
into the input buffer and passes that through the filter group to the buffer of the
caller, or to the internal output buffer, which keeps what small reads and line reads
have not used.
-/

namespace ReadStream

open Text FuelLoop StreamFilter FilterGroup

structure IoRead where
  filterGroup : IoFilterGroup
  bufferSize : Nat
  /-- Does the driver block until it has read what was asked for? -/
  block : Bool
  /-- What the reads of the driver will give; it is at EOF when there is nothing left. -/
  fragments : List Bytes
  /-- Input buffer, NULL in the flush. -/
  input : Option Bytes := some []
  /-- Internal output buffer and the current position in it. -/
  output : Bytes := []
  outputPos : Nat := 0
  eofAll : Bool := false

def ioReadOpen (bufferSize : Nat) (block : Bool) (filters : List IoFilter) (fragments : List Bytes) :
    IoRead where
  filterGroup := ioFilterGroupOpen bufferSize filters
  bufferSize := bufferSize
  block := block
  fragments := fragments

def ioReadEof (this : IoRead) : Bool := this.eofAll

def ioReadEofDriver (this : IoRead) : Bool := this.fragments.isEmpty

/-- A read of the driver gives the next fragment, or as much of it as there is space for. -/
def driverRead : List Bytes → Nat → Bytes × List Bytes
  | [], _ => ([], [])
  | fragment :: rest, room =>
    if fragment.length ≤ room then (fragment, rest)
    else (fragment.take room, fragment.drop room :: rest)

/-- Read if not EOF, else set input to NULL and flush. -/
def readInput (this : IoRead) (remains : Nat) : IoRead :=
  match this.input with
  | none => this
  | some _ =>
    if ioReadEofDriver this then { this with input := none }
    else
      -- If blocking then limit the amount of data requested
      let room := if this.block && decide (this.bufferSize > remains) then remains else this.bufferSize
      { this with
        input := some (driverRead this.fragments room).1
        fragments := (driverRead this.fragments room).2 }

def process (fuel : Nat) (this : IoRead) (buffer : Buffer) : Outcome Error (IoRead × Buffer) :=
  (ioFilterGroupProcess fuel this.filterGroup this.input buffer).bind fun processed =>
    .ok ({ this with filterGroup := processed.1 }, processed.2)

def processInput (fuel : Nat) (this : IoRead) (buffer : Buffer) : Outcome Error (IoRead × Buffer) :=
  if this.input = some [] then .ok (this, buffer) else process fuel this buffer

def setEof (this : IoRead) : IoRead :=
  { this with eofAll := ioReadEofDriver this && this.filterGroup.done }

/-- One round of the loop of `ioReadInternal`. -/
def ioReadInternalRound (block : Bool) (usedBegin fuel : Nat) (state : IoRead × Buffer) :
    Outcome Error ((IoRead × Buffer) ⊕ (IoRead × Buffer)) :=
  if ioReadEof state.1 || bufFull state.2 then .ok (.inr state)
  else if state.1.filterGroup.inputSame then
    (process fuel state.1 state.2).bind fun (this, buffer) => .ok (.inl (setEof this, buffer))
  else
    (processInput fuel (readInput state.1 (bufRemains state.2)) state.2).bind fun (this, buffer) =>
      -- Stop if not blocking -- we don't need to fill the buffer as long as we got some data
      if !block && decide (buffer.used.length > usedBegin) then .ok (.inr (this, buffer))
      else .ok (.inl (setEof this, buffer))

def ioReadInternal (fuel : Nat) (this : IoRead) (buffer : Buffer) (block : Bool) :
    Outcome Error (IoRead × Buffer) :=
  loop (ioReadInternalRound block buffer.used.length fuel) fuel (this, buffer)

/-- Use any data in the internal output buffer. -/
def copyOutput (this : IoRead) (buffer : Buffer) : IoRead × Buffer :=
  let size := min (this.output.length - this.outputPos) (bufRemains buffer)
  ({ this with outputPos := this.outputPos + size },
    { buffer with used := buffer.used ++ (this.output.drop this.outputPos).take size })

def ioRead (fuel : Nat) (this : IoRead) (buffer : Buffer) : Outcome Error (IoRead × Buffer) :=
  let copied := copyOutput this buffer
  ioReadInternal fuel copied.1 copied.2 true

def readOutput (fuel : Nat) (this : IoRead) (output : Bytes) : Outcome Error IoRead :=
  (ioReadInternal fuel { this with output := output, outputPos := 0 } ⟨output, this.bufferSize⟩
    false).bind fun (this, buffer) => .ok { this with output := buffer.used }

/-- The condition at the end of the loop of `ioReadSmall`. -/
def smallEnd (state : IoRead × Buffer) : Outcome Error ((IoRead × Buffer) ⊕ (IoRead × Buffer)) :=
  if bufFull state.2 then .ok (.inr state) else .ok (.inl state)

/-- One round of the loop of `ioReadSmall`. -/
def ioReadSmallRound (fuel : Nat) (state : IoRead × Buffer) :
    Outcome Error ((IoRead × Buffer) ⊕ (IoRead × Buffer)) :=
  let copied := copyOutput state.1 state.2
  -- If more data is required
  if bufFull copied.2 then smallEnd copied
  -- If the data required is the same size as the internal output buffer then just read into the
  -- external buffer
  else if bufRemains copied.2 ≥ copied.1.bufferSize then
    (ioReadInternal fuel copied.1 copied.2 true).bind smallEnd
  -- Else read as much data as is available. If is not enough we will try again later.
  else
    (readOutput fuel copied.1 []).bind fun this => smallEnd (this, copied.2)

def ioReadSmall (fuel : Nat) (this : IoRead) (buffer : Buffer) : Outcome Error (IoRead × Buffer) :=
  loop (ioReadSmallRound fuel) fuel (this, buffer)

def linefeed : UInt8 := 10

/-- A line, and whether it ended with a linefeed, which is not part of it. -/
structure Line where
  text : Bytes
  terminated : Bool
  deriving DecidableEq

def lineError (size : Nat) : Error :=
  ⟨.fileReadError, "unable to find line in ".toList ++ fmtUInt size ++ " byte buffer".toList⟩

def lineEofError : Error := ⟨.fileReadError, "unexpected eof while reading line".toList⟩

/-- One round of the loop of `ioReadLineParam`. An error leaves the object as it is. -/
def ioReadLineRound (allowEof : Bool) (fuel : Nat) (this : IoRead) :
    Outcome Error (IoRead ⊕ (IoRead × Except Error Line)) :=
  let remains := this.output.drop this.outputPos
  match remains.idxOf? linefeed with
  | some size =>
    .ok (.inr ({ this with outputPos := this.outputPos + size + 1 }, .ok ⟨remains.take size, true⟩))
  | none =>
    let this := { this with output := remains, outputPos := 0 }
    -- If the buffer is full then the linefeed (if it exists) is outside the buffer
    if bufFull ⟨remains, this.bufferSize⟩ then .ok (.inr (this, .error (lineError remains.length)))
    else if ioReadEof this then
      if allowEof then .ok (.inr (this, .ok ⟨remains, false⟩))
      else .ok (.inr (this, .error lineEofError))
    else
      (readOutput fuel this remains).bind fun this => .ok (.inl this)

def ioReadLineParam (fuel : Nat) (this : IoRead) (allowEof : Bool) :
    Outcome Error (IoRead × Except Error Line) :=
  loop (ioReadLineRound allowEof fuel) fuel this

end ReadStream
