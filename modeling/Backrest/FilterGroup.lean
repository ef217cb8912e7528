import Backrest.StreamFilter

/-!
# Filter groups

A filter group is a chain of filters with a buffer after each in-out filter but the
last, which writes to the buffer of the caller. One pass goes forward from the first
filter, or from the last one that asked for the same input, for as long as there is
something to hand on. A buffer that will not be filled again is replaced by NULL, which
flushes the filters after it.
-/

namespace FilterGroup

open Text FuelLoop StreamFilter

/-- A filter of the group and its output buffer. In-only filters have none, and the last filter
has that of the caller. -/
structure IoFilterData where
  filter : IoFilter
  output : Option Buffer

structure IoFilterGroup where
  filterList : List IoFilterData
  inputSame : Bool := false
  done : Bool := false

/-- Buffers for all filters but the last. -/
def openFilters (bufferSize : Nat) : List IoFilter → List IoFilterData
  | [] => []
  | [filter] => [⟨filter, none⟩]
  | filter :: next :: rest =>
    ⟨filter, if ioFilterOutput filter then some ⟨[], bufferSize⟩ else none⟩ ::
      openFilters bufferSize (next :: rest)

def withBuffer (filters : List IoFilter) : List IoFilter :=
  match filters.getLast? with
  | none => [ioBufferNew]
  | some last => if ioFilterOutput last then filters else filters ++ [ioBufferNew]

def ioFilterGroupOpen (bufferSize : Nat) (filters : List IoFilter) : IoFilterGroup where
  filterList := openFilters bufferSize (withBuffer filters)

/-- What one pass over the filters leaves. -/
structure Pass where
  filterList : List IoFilterData
  output : Buffer
  /-- The filter that was given the input does not need it again. -/
  consumed : Bool
  inputSame : Bool

def target (data : IoFilterData) (isLast : Bool) (output : Buffer) : Buffer :=
  if isLast then output else data.output.getD ⟨[], 0⟩

def nullOutput (data : IoFilterData) : IoFilterData :=
  match data.output with
  | some output => if ioFilterDone data.filter && output.used.isEmpty then ⟨data.filter, none⟩ else data
  | none => data

def clearOutput (data : IoFilterData) (consumed : Bool) : IoFilterData :=
  if consumed then ⟨data.filter, data.output.map fun output => { output with used := [] }⟩ else data

def downstream (data : IoFilterData) (input : Option Bytes) : Option Bytes :=
  if ioFilterOutput data.filter then data.output.map Buffer.used else input

/-- A filter in front of the rest of a pass. -/
def join (data : IoFilterData) (consumed inputSame : Bool) (pass : Pass) : Pass where
  filterList :=
    (if ioFilterOutput data.filter then clearOutput data pass.consumed else data) :: pass.filterList
  output := pass.output
  consumed := if ioFilterOutput data.filter then consumed else pass.consumed
  inputSame := inputSame || pass.inputSame

def forward : List IoFilterData → Option Bytes → Buffer → Outcome Error Pass
  | [], _, output => .ok ⟨[], output, false, false⟩
  | data :: rest, input, output =>
    if ioFilterDone data.filter then
      let data := nullOutput data
      (forward rest (downstream data input) output).bind fun pass => .ok (join data false false pass)
    else if ioFilterOutput data.filter then
      (ioFilterProcessInOut data.filter input (target data rest.isEmpty output)).bind fun called =>
        let inputSame := ioFilterInputSame called.1
        let data := ⟨called.1, if rest.isEmpty then none else some called.2⟩
        let output := if rest.isEmpty then called.2 else output
        -- If the output buffer is not full and the filter is not done then more data is required
        if !bufFull called.2 && !ioFilterDone called.1 then
          .ok ⟨data :: rest, output, !inputSame, inputSame⟩
        else
          let data := nullOutput data
          (forward rest (downstream data input) output).bind fun pass =>
            .ok (join data (!inputSame) inputSame pass)
    else
      (ioFilterProcessIn data.filter input).bind fun filter =>
        (forward rest input output).bind fun pass => .ok (join ⟨filter, data.output⟩ false false pass)

/-- Process forward from the last filter that needs the same input. -/
def resume : List IoFilterData → Option Bytes → Buffer → Option (Outcome Error Pass)
  | [], _, _ => none
  | data :: rest, input, output =>
    match resume rest (downstream data input) output with
    | some later => some (later.bind fun pass => .ok (join data false false pass))
    | none =>
      if ioFilterInputSame data.filter then some (forward (data :: rest) input output) else none

/-- The variables of the loop. -/
structure Round where
  filterList : List IoFilterData
  output : Buffer
  inputSame : Bool

/-- The condition at the end of the loop. -/
def roundEnd (round : Round) : Outcome Error (Round ⊕ Round) :=
  if !bufFull round.output && round.inputSame then .ok (.inl round) else .ok (.inr round)

def processRound (input : Option Bytes) (round : Round) : Outcome Error (Round ⊕ Round) :=
  if round.inputSame then
    match resume round.filterList input round.output with
    | none => .ok (.inr { round with inputSame := false })
    | some later => later.bind fun pass => roundEnd ⟨pass.filterList, pass.output, true⟩
  else
    (forward round.filterList input round.output).bind fun pass =>
      roundEnd ⟨pass.filterList, pass.output, pass.inputSame⟩

/-- The scan at the end. -/
def scan (filterList : List IoFilterData) : IoFilterGroup where
  filterList := filterList
  inputSame := filterList.any fun data => ioFilterInputSame data.filter
  done := filterList.all fun data => !ioFilterInputSame data.filter && ioFilterDone data.filter

def ioFilterGroupProcess (fuel : Nat) (this : IoFilterGroup) (input : Option Bytes)
    (output : Buffer) : Outcome Error (IoFilterGroup × Buffer) :=
  (loop (processRound input) fuel ⟨this.filterList, output, this.inputSame⟩).bind fun round =>
    .ok (scan round.filterList, round.output)

end FilterGroup
