import Backrest.FuelLoop
import Backrest.StreamCipher
import Backrest.Text

/-!
# The cipher filter

The encrypted stream starts with a magic and the salt. Output that does not fit is kept in a
buffer that is written first when the filter is called again with the same input.
-/

namespace CipherBlock

open StreamCipher FuelLoop
open Text (Error)

def cipherBlockMagic : Bytes := "Salted__".toList.map fun c => UInt8.ofNat c.toNat

def cipherBlockMagicSize : Nat := 8

def pkcs5SaltLen : Nat := 8

def cipherBlockHeaderSize : Nat := cipherBlockMagicSize + pkcs5SaltLen

/-- Something is written behind the end of a buffer, or there is no context. -/
inductive Failure
  | overrun
  | noContext
  | thrown (error : Error)
  deriving DecidableEq

def cryptoError (message : String) : Failure := .thrown ⟨.cryptoError, message.toList⟩

structure CipherBlock (evp : Cipher) where
  encrypt : Bool
  pass : Bytes
  random : Bytes
  randomSize : random.length = pkcs5SaltLen
  header : Bytes := []
  cipherContext : Option evp.Context := none
  buffer : Bytes := []
  inputSame : Bool := false
  done : Bool := false

section Code
variable {evp : Cipher} (this : CipherBlock evp)

def saltDone : Bool := this.cipherContext.isSome

def cipherBlockProcessSize (sourceSize : Nat) : Nat :=
  sourceSize + evp.blockMax +
    if this.encrypt = true ∧ saltDone this = false then cipherBlockHeaderSize else 0

/-- Generate key and initialization vector, and initialize the cipher. -/
def initCipher (salt : Bytes) : CipherBlock evp :=
  { this with cipherContext := some (evp.init this.encrypt this.pass salt) }

/-- What the header part writes, and what it leaves of the source. -/
def processHeader (source : Bytes) : Except Failure (Bytes × Bytes × CipherBlock evp) :=
  if saltDone this then .ok ([], source, this)
  -- On encrypt the salt is generated
  else if this.encrypt then .ok (cipherBlockMagic ++ this.random, source, initCipher this this.random)
  else if source = [] then .ok ([], [], this)
  -- Check if the entire header has been read
  else if cipherBlockHeaderSize ≤ this.header.length + source.length then
    let size := cipherBlockHeaderSize - this.header.length
    let header := this.header ++ source.take size
    if header.take cipherBlockMagicSize ≠ cipherBlockMagic then
      .error (cryptoError "cipher header invalid")
    else .ok ([], source.drop size,
      initCipher { this with header := header } (header.drop cipherBlockMagicSize))
  -- Else copy what was provided into the header buffer
  else .ok ([], [], { this with header := this.header ++ source })

/-- A size as an `int`. -/
def cInt (size : Nat) : Int :=
  if size % 2 ^ 32 < 2 ^ 31 then (size % 2 ^ 32 : Nat) else (size % 2 ^ 32 : Nat) - (2 ^ 32 : Nat)

def refused : Failure := cryptoError "unable to process cipher: [0] no details available"

/-- `EVP_CipherUpdate` with the size as an `int`. -/
def cipherUpdate (context : evp.Context) (source : Bytes) : Except Failure (Bytes × evp.Context) :=
  match evp.call context (cInt source.length) source with
  | none => .error refused
  | some result => .ok result

def processData (source : Bytes) : Except Failure (Bytes × CipherBlock evp) :=
  if source = [] then .ok ([], this)
  else
    match this.cipherContext with
    | none => .error .noContext
    | some context =>
      match cipherUpdate context source with
      | .error failure => .error failure
      | .ok (output, context) => .ok (output, { this with cipherContext := some context })

def cipherBlockProcessBlock (source : Bytes) : Except Failure (Bytes × CipherBlock evp) :=
  match processHeader this source with
  | .error failure => .error failure
  | .ok (header, source, this) =>
    match processData this source with
    | .error failure => .error failure
    | .ok (output, this) => .ok (header ++ output, this)

def cipherBlockFlush : Except Failure Bytes :=
  match this.cipherContext with
  -- If no header was processed then error
  | none => .error (cryptoError "cipher header missing")
  | some context =>
    match evp.final context with
    | none => .error (cryptoError "unable to flush")
    | some output => .ok output

/-- It is OK to encrypt a zero byte file but the header must be generated. -/
def flushAll : Except Failure (Bytes × CipherBlock evp) :=
  match if saltDone this then .ok ([], this) else cipherBlockProcessBlock this [] with
  | .error failure => .error failure
  | .ok (header, this) =>
    match cipherBlockFlush this with
    | .error failure => .error failure
    | .ok output => .ok (header ++ output, { this with done := true })

def produce : Option Bytes → Except Failure (Bytes × CipherBlock evp)
  | none => flushAll this
  | some source => cipherBlockProcessBlock this source

def copyBuffered (room : Nat) : Bytes × CipherBlock evp :=
  if this.buffer.length ≤ room then
    (this.buffer, { this with buffer := [], inputSame := false })
  else
    (this.buffer.take room, { this with buffer := this.buffer.drop room, inputSame := true })

/-- A call with the space in the destination, and what is written to it. -/
def cipherBlockProcess (source : Option Bytes) (room : Nat) :
    Except Failure (Bytes × CipherBlock evp) :=
  if this.buffer ≠ [] then .ok (copyBuffered this room)
  else
    -- Determine how much space is required in the output buffer
    let destinationSize := cipherBlockProcessSize this (source.getD []).length
    match produce this source with
    | .error failure => .error failure
    | .ok (output, this) =>
      if max destinationSize room < output.length then .error .overrun
      else if destinationSize ≤ room then .ok (output, this)
      -- Copy from buffer to destination if needed
      else if output = [] then .ok ([], this)
      else .ok (copyBuffered { this with buffer := output } room)

def cipherBlockDone : Bool := this.done && !this.inputSame

end Code

section Drive
variable {evp : Cipher}

/-- The calls that are made: a piece is given again while the filter asks for the same input, and
in the end the filter is flushed until it is done. -/
structure DriveState (evp : Cipher) where
  filter : CipherBlock evp
  pieces : List Bytes
  calls : Nat := 0
  out : Bytes := []

abbrev Result := Except Failure Bytes

def settle (filter : CipherBlock evp) (pieces : List Bytes) (calls : Nat) (out : Bytes) :
    DriveState evp ⊕ Result :=
  match pieces with
  | [] => if cipherBlockDone filter then .inr (.ok out) else .inl ⟨filter, [], calls, out⟩
  | piece :: rest =>
    .inl ⟨filter, if filter.inputSame then piece :: rest else rest, calls, out⟩

def drive (rooms : Nat → Nat) (s : DriveState evp) : Outcome Empty (DriveState evp ⊕ Result) :=
  match cipherBlockProcess s.filter s.pieces.head? (rooms s.calls) with
  | .error failure => .ok (.inr (.error failure))
  | .ok (output, filter) => .ok (settle filter s.pieces (s.calls + 1) (s.out ++ output))

def Ends (rooms : Nat → Nat) (filter : CipherBlock evp) (pieces : List Bytes) (result : Result) :
    Prop :=
  LoopReturns (fun _ => drive rooms) ⟨filter, pieces, 0, []⟩ result

end Drive

section Claimed
variable (evp : Cipher)

def cipherBlockNew (encrypt : Bool) (pass random : Bytes) (randomSize : random.length = pkcs5SaltLen) :
    CipherBlock evp where
  encrypt := encrypt
  pass := pass
  random := random
  randomSize := randomSize

/-- The encrypted stream. -/
def salted (pass salt plain : Bytes) : Bytes :=
  cipherBlockMagic ++ salt ++ evp.encrypted pass salt plain

/-- The pieces without their first bytes. -/
def behindHeader : Nat → List Bytes → List Bytes
  | _, [] => []
  | size, piece :: pieces =>
    if size ≤ piece.length then piece.drop size :: pieces
    else behindHeader (size - piece.length) pieces

/-- The size of each piece is a positive `int` or zero. -/
def Small (pieces : List Bytes) : Prop := ∀ piece ∈ pieces, piece.length < 2 ^ 31

end Claimed

section Sizes
variable {evp : Cipher} {this next : CipherBlock evp} {source output rest : Bytes}

theorem length_magic : cipherBlockMagic.length = cipherBlockMagicSize := rfl

/-- Nothing is buffered between the pieces. -/
def Idle (this : CipherBlock evp) : Prop := this.buffer = [] ∧ this.inputSame = false

theorem processHeader_spec (run : processHeader this source = .ok (output, rest, next)) :
    next.buffer = this.buffer ∧ next.inputSame = this.inputSame ∧ next.done = this.done ∧
      rest.length ≤ source.length ∧ output.length ≤
        if this.encrypt = true ∧ saltDone this = false then cipherBlockHeaderSize else 0 := by
  rw [processHeader] at run
  split at run
  · cases run
    exact ⟨rfl, rfl, rfl, le_rfl, Nat.zero_le _⟩
  next fresh =>
    split at run
    next encrypts =>
      cases run
      refine ⟨rfl, rfl, rfl, le_rfl, ?_⟩
      rw [if_pos ⟨encrypts, by simpa using fresh⟩, List.length_append, this.randomSize, length_magic]
      exact le_rfl
    next =>
      split at run
      · cases run
        exact ⟨rfl, rfl, rfl, Nat.zero_le _, Nat.zero_le _⟩
      split at run
      · dsimp only at run
        split at run
        · cases run
        · cases run
          refine ⟨rfl, rfl, rfl, ?_, Nat.zero_le _⟩
          rw [List.length_drop]
          exact Nat.sub_le _ _
      · cases run
        exact ⟨rfl, rfl, rfl, Nat.zero_le _, Nat.zero_le _⟩

theorem cipherUpdate_eq (context : evp.Context) (source : Bytes) :
    cipherUpdate context source = if cInt source.length < 0 then .error refused
      else .ok (evp.update context (source.take (cInt source.length).toNat)) := by
  rw [cipherUpdate]
  by_cases negative : cInt source.length < 0
  · rw [evp.call_negative context source _ negative, if_pos negative]
  · obtain ⟨size, isSize⟩ := Int.eq_ofNat_of_zero_le (not_lt.mp negative)
    have less : size ≤ source.length := by
      rw [cInt] at isSize
      split at isSize <;> omega
    rw [if_neg negative, isSize, evp.call_size context source size less]
    rfl

theorem processData_spec (run : processData this source = .ok (output, next)) :
    next.buffer = this.buffer ∧ next.inputSame = this.inputSame ∧ next.done = this.done ∧
      output.length ≤ source.length + evp.blockMax := by
  rw [processData] at run
  split at run
  · cases run
    exact ⟨rfl, rfl, rfl, Nat.zero_le _⟩
  · split at run
    · cases run
    next context _ =>
      rw [cipherUpdate_eq] at run
      by_cases negative : cInt source.length < 0
      · rw [if_pos negative] at run
        cases run
      · rw [if_neg negative] at run
        cases run
        refine ⟨rfl, rfl, rfl, ?_⟩
        have less := List.length_take_le' (cInt source.length).toNat source
        exact (evp.update_size context _).trans (Nat.add_le_add_right less _)

/-- What a piece leads to fits the size that is asked for. -/
theorem processBlock_spec (run : cipherBlockProcessBlock this source = .ok (output, next)) :
    next.buffer = this.buffer ∧ next.inputSame = this.inputSame ∧ next.done = this.done ∧
      output.length ≤ cipherBlockProcessSize this source.length := by
  rw [cipherBlockProcessBlock] at run
  split at run
  · cases run
  next header rest mid first =>
    split at run
    · cases run
    next data last second =>
      cases run
      obtain ⟨buffer, same, done, less, size⟩ := processHeader_spec first
      obtain ⟨buffer', same', done', size'⟩ := processData_spec second
      refine ⟨buffer'.trans buffer, same'.trans same, done'.trans done, ?_⟩
      rw [List.length_append, cipherBlockProcessSize]
      omega

/-- Without a source there is the header at most. -/
theorem processBlock_nil (run : cipherBlockProcessBlock this [] = .ok (output, next)) :
    output.length ≤ if this.encrypt = true ∧ saltDone this = false then cipherBlockHeaderSize
      else 0 := by
  rw [cipherBlockProcessBlock] at run
  split at run
  · cases run
  next header rest mid first =>
    obtain ⟨-, -, -, less, size⟩ := processHeader_spec first
    rw [List.eq_nil_of_length_eq_zero (Nat.le_zero.mp less), processData, if_pos rfl] at run
    cases run
    rw [List.append_nil]
    exact size

theorem flushAll_spec (run : flushAll this = .ok (output, next)) :
    next.buffer = this.buffer ∧ next.inputSame = this.inputSame ∧ next.done = true ∧
      output.length ≤ cipherBlockProcessSize this 0 := by
  rw [flushAll] at run
  split at run
  · cases run
  next header mid first =>
    have before : mid.buffer = this.buffer ∧ mid.inputSame = this.inputSame ∧ header.length ≤
        if this.encrypt = true ∧ saltDone this = false then cipherBlockHeaderSize else 0 := by
      by_cases salted : saltDone this = true
      · rw [if_pos salted] at first
        cases first
        exact ⟨rfl, rfl, Nat.zero_le _⟩
      · rw [if_neg salted] at first
        obtain ⟨buffer, same, -⟩ := processBlock_spec first
        exact ⟨buffer, same, processBlock_nil first⟩
    split at run
    · cases run
    next tail flushed =>
      cases run
      refine ⟨before.1, before.2.1, rfl, ?_⟩
      have size : tail.length ≤ evp.blockMax := by
        rw [cipherBlockFlush] at flushed
        split at flushed
        · cases flushed
        · split at flushed
          · cases flushed
          next out final =>
            cases flushed
            exact evp.final_size _ _ final
      have header := before.2.2
      rw [List.length_append, cipherBlockProcessSize]
      omega

theorem produce_spec {source : Option Bytes} (run : produce this source = .ok (output, next)) :
    next.buffer = this.buffer ∧ next.inputSame = this.inputSame ∧
      next.done = (this.done || source.isNone) ∧
      output.length ≤ cipherBlockProcessSize this (source.getD []).length := by
  cases source with
  | none =>
    obtain ⟨buffer, same, done, size⟩ := flushAll_spec run
    exact ⟨buffer, same, done.trans (Bool.or_true _).symm, size⟩
  | some source =>
    obtain ⟨buffer, same, done, size⟩ := processBlock_spec run
    exact ⟨buffer, same, done.trans (Bool.or_false _).symm, size⟩

end Sizes

section Drain
variable {evp : Cipher} {filter : CipherBlock evp} {rooms : Nat → Nat} {pieces : List Bytes}
  {result : Result} {out : Bytes}

/-- The calls go on from here to the result, or have ended with it. -/
def Continues (rooms : Nat → Nat) (result : Result) : DriveState evp ⊕ Result → Prop
  | .inl s => LoopReturns (fun _ => drive rooms) s result
  | .inr found => found = result

theorem drive_continues {s : DriveState evp} {next : DriveState evp ⊕ Result}
    (call : drive rooms s = .ok next) (continues : Continues rooms result next) :
    LoopReturns (fun _ => drive rooms) s result := by
  cases next with
  | inl s' => exact continues.next (.of_eq fun _ => call)
  | inr found =>
    have same : found = result := continues
    rw [same] at call
    exact .stop (.of_eq fun _ => call)

theorem drain (positive : ∀ call, 0 < rooms call) {buffer : Bytes} {calls : Nat}
    (after : ∀ calls, Continues rooms result
      (settle { filter with buffer := [], inputSame := false } pieces calls (out ++ buffer)))
    (some : buffer ≠ []) :
    Continues rooms result
      (settle { filter with buffer := buffer, inputSame := true } pieces calls out) := by
  induction size : buffer.length using Nat.strong_induction_on generalizing buffer calls out with
  | _ size ih =>
    subst size
    have waits : settle { filter with buffer := buffer, inputSame := true } pieces calls out =
        .inl ⟨{ filter with buffer := buffer, inputSame := true }, pieces, calls, out⟩ := by
      cases pieces with
      | nil =>
        rw [settle, cipherBlockDone]
        dsimp only
        rw [Bool.not_true, Bool.and_false]
        rfl
      | cons piece rest => rfl
    rw [waits]
    by_cases fits : buffer.length ≤ rooms calls
    · refine drive_continues ?_ (after (calls + 1))
      rw [drive, cipherBlockProcess]
      dsimp only
      rw [if_pos some, copyBuffered, if_pos fits]
    · have left : buffer.drop (rooms calls) ≠ [] := by
        rw [ne_eq, List.drop_eq_nil_iff]
        omega
      have less : (buffer.drop (rooms calls)).length < buffer.length := by
        rw [List.length_drop]
        have room := positive calls
        have long := List.length_pos_iff.mpr some
        omega
      have rest : ∀ calls', Continues rooms result (settle { filter with
          buffer := [], inputSame := false } pieces calls'
          (out ++ buffer.take (rooms calls) ++ buffer.drop (rooms calls))) := by
        intro calls'
        rw [List.append_assoc, List.take_append_drop]
        exact after calls'
      refine drive_continues ?_ (@ih _ less _ _ (calls + 1) rest left rfl)
      rw [drive, cipherBlockProcess]
      dsimp only
      rw [if_pos some, copyBuffered, if_neg fits]

/-- A call with nothing buffered is settled as if all it produced were written at once. -/
theorem call_settles (positive : ∀ call, 0 < rooms call) {calls : Nat} {output : Bytes}
    {next : CipherBlock evp} (idle : Idle filter)
    (run : produce filter pieces.head? = .ok (output, next))
    (after : ∀ calls, Continues rooms result (settle next pieces calls (out ++ output))) :
    LoopReturns (fun _ => drive rooms) ⟨filter, pieces, calls, out⟩ result := by
  obtain ⟨buffer, same, -, size⟩ := produce_spec run
  rw [idle.1] at buffer
  rw [idle.2] at same
  have cleared : { next with buffer := [], inputSame := false } = next := by
    cases next
    cases buffer
    cases same
    rfl
  have fits : ¬ max (cipherBlockProcessSize filter (pieces.head?.getD []).length) (rooms calls) <
      output.length := by
    have larger := le_max_left (cipherBlockProcessSize filter (pieces.head?.getD []).length)
      (rooms calls)
    omega
  have call : cipherBlockProcess filter pieces.head? (rooms calls) =
      if cipherBlockProcessSize filter (pieces.head?.getD []).length ≤ rooms calls then
        .ok (output, next)
      else if output = [] then .ok ([], next)
      else .ok (copyBuffered { next with buffer := output } (rooms calls)) := by
    rw [cipherBlockProcess, if_neg (not_not_intro idle.1), run]
    dsimp only
    rw [if_neg fits]
  have whole : ∀ {written : Bytes} {filter' : CipherBlock evp},
      cipherBlockProcess filter pieces.head? (rooms calls) = .ok (written, filter') →
      Continues rooms result (settle filter' pieces (calls + 1) (out ++ written)) →
      LoopReturns (fun _ => drive rooms) ⟨filter, pieces, calls, out⟩ result := by
    intro written filter' called continues
    refine drive_continues ?_ continues
    rw [drive, called]
  by_cases direct : cipherBlockProcessSize filter (pieces.head?.getD []).length ≤ rooms calls
  · rw [if_pos direct] at call
    exact whole call (after (calls + 1))
  rw [if_neg direct] at call
  by_cases none : output = []
  · rw [if_pos none] at call
    rw [none] at after
    exact whole call (after (calls + 1))
  rw [if_neg none, copyBuffered] at call
  dsimp only at call
  by_cases short : output.length ≤ rooms calls
  · rw [if_pos short, cleared] at call
    exact whole call (after (calls + 1))
  · rw [if_neg short] at call
    have left : output.drop (rooms calls) ≠ [] := by
      rw [ne_eq, List.drop_eq_nil_iff]
      omega
    apply whole call
    apply drain positive _ left
    intro calls'
    rw [cleared, List.append_assoc, List.take_append_drop]
    exact after calls'

end Drain

section Consume
variable {evp : Cipher}

/-- What the filter makes of the pieces, whatever space there is for the output. -/
def consume (filter : CipherBlock evp) : List Bytes → Bytes → Result
  | [], out =>
    match flushAll filter with
    | .error failure => .error failure
    | .ok (output, _) => .ok (out ++ output)
  | piece :: pieces, out =>
    match cipherBlockProcessBlock filter piece with
    | .error failure => .error failure
    | .ok (output, filter) => consume filter pieces (out ++ output)

variable {filter : CipherBlock evp} {pieces : List Bytes}

theorem call_fails {rooms : Nat → Nat} (idle : Idle filter) {calls : Nat} {out : Bytes}
    {failure : Failure} (run : produce filter pieces.head? = .error failure) :
    LoopReturns (fun _ => drive rooms) ⟨filter, pieces, calls, out⟩ (.error failure) := by
  apply LoopReturns.stop
  apply Returns.of_eq
  intro _
  rw [drive, cipherBlockProcess]
  dsimp only
  rw [if_neg (not_not_intro idle.1), run]

/-- The calls end, with the result that the pieces determine. -/
theorem drive_consume {rooms : Nat → Nat} (positive : ∀ call, 0 < rooms call) (idle : Idle filter)
    (pieces : List Bytes) (calls : Nat) (out : Bytes) :
    LoopReturns (fun _ => drive rooms) ⟨filter, pieces, calls, out⟩ (consume filter pieces out) := by
  induction pieces generalizing filter calls out with
  | nil =>
    rw [consume]
    cases run : flushAll filter with
    | error failure =>
      have call : produce filter (List.head? []) = .error failure := run
      exact call_fails idle call
    | ok flushed =>
      obtain ⟨output, next⟩ := flushed
      have call : produce filter (List.head? []) = .ok (output, next) := run
      apply call_settles positive idle call
      intro calls'
      obtain ⟨-, same, done, -⟩ := flushAll_spec run
      rw [settle, cipherBlockDone, done, same, idle.2]
      rfl
  | cons piece pieces ih =>
    rw [consume]
    cases run : cipherBlockProcessBlock filter piece with
    | error failure =>
      have call : produce filter (piece :: pieces).head? = .error failure := run
      exact call_fails idle call
    | ok processed =>
      obtain ⟨output, next⟩ := processed
      obtain ⟨buffer, same, -⟩ := processBlock_spec run
      have idle' : Idle next := ⟨buffer.trans idle.1, same.trans idle.2⟩
      have call : produce filter (piece :: pieces).head? = .ok (output, next) := run
      apply call_settles positive idle call
      intro calls'
      rw [settle, idle'.2]
      exact ih idle' calls' (out ++ output)

/-- What of the pieces gets to the cipher, if it refuses none. -/
def sent : List Bytes → Option Bytes
  | [] => some []
  | piece :: pieces =>
    if cInt piece.length < 0 then none
    else (sent pieces).map (piece.take (cInt piece.length).toNat ++ ·)

def finish (output : Option Bytes) (out : Bytes) : Result :=
  match output with
  | none => .error (cryptoError "unable to flush")
  | some output => .ok (out ++ output)

theorem finish_map {output : Option Bytes} {front out : Bytes} :
    finish (output.map (front ++ ·)) out = finish output (out ++ front) := by
  cases output with
  | none => rfl
  | some output => exact congrArg Except.ok (List.append_assoc _ _ _).symm

theorem processBlock_started {context : evp.Context} {source : Bytes}
    (started : filter.cipherContext = some context) :
    cipherBlockProcessBlock filter source = if cInt source.length < 0 then .error refused
      else .ok ((evp.update context (source.take (cInt source.length).toNat)).1,
        { filter with
          cipherContext :=
            some (evp.update context (source.take (cInt source.length).toNat)).2 }) := by
  have salted : saltDone filter = true := by rw [saltDone, started]; rfl
  rw [cipherBlockProcessBlock, processHeader, if_pos salted]
  dsimp only
  rw [processData]
  by_cases none : source = []
  · subst none
    rw [if_pos rfl, List.take_nil, evp.update_nil, ← started]
    rfl
  · rw [if_neg none, started]
    dsimp only
    rw [cipherUpdate_eq]
    by_cases negative : cInt source.length < 0
    · rw [if_pos negative, if_pos negative]
    · rw [if_neg negative, if_neg negative]
      rfl

/-- With the header done the output is that of one stream. -/
theorem consume_started {context : evp.Context} (started : filter.cipherContext = some context)
    (pieces : List Bytes) (out : Bytes) :
    consume filter pieces out = match sent pieces with
      | none => .error refused
      | some input => finish (evp.stream context input) out := by
  induction pieces generalizing filter context out with
  | nil =>
    have salted : saltDone filter = true := by rw [saltDone, started]; rfl
    rw [consume, flushAll, if_pos salted]
    dsimp only
    rw [cipherBlockFlush, started]
    dsimp only
    rw [sent]
    dsimp only
    rw [Cipher.stream, evp.update_nil]
    cases evp.final context with
    | none => rfl
    | some output => rfl
  | cons piece pieces ih =>
    rw [consume, processBlock_started started, sent]
    by_cases negative : cInt piece.length < 0
    · rw [if_pos negative, if_pos negative]
    · rw [if_neg negative, if_neg negative]
      dsimp only
      rw [ih rfl]
      cases sent pieces with
      | none => rfl
      | some input =>
        dsimp only [Option.map_some]
        rw [evp.stream_append, finish_map]

theorem cInt_eq {size : Nat} (small : size < 2 ^ 31) : cInt size = size := by
  have whole : size % 2 ^ 32 = size := Nat.mod_eq_of_lt (by omega)
  rw [cInt, whole, if_pos small]

theorem sent_small (small : Small pieces) :
    sent pieces = some pieces.flatten := by
  induction pieces with
  | nil => rfl
  | cons piece pieces ih =>
    obtain ⟨first, rest⟩ := List.forall_mem_cons.mp small
    rw [sent, cInt_eq first, if_neg (by omega), ih rest, Int.toNat_natCast, List.take_length]
    rfl

theorem length_sent {input : Bytes} (run : sent pieces = some input) :
    input.length ≤ pieces.flatten.length ∧
      (input.length = pieces.flatten.length → Small pieces) := by
  induction pieces generalizing input with
  | nil =>
    cases run
    exact ⟨le_rfl, fun _ piece mem => by cases mem⟩
  | cons piece pieces ih =>
    rw [sent] at run
    split at run
    · cases run
    next nonneg =>
      obtain ⟨rest, later, rfl⟩ := Option.map_eq_some_iff.mp run
      obtain ⟨less, all⟩ := ih later
      have taken : (piece.take (cInt piece.length).toNat).length ≤ piece.length :=
        List.length_take_le' _ _
      rw [List.length_append, List.flatten_cons, List.length_append]
      refine ⟨by omega, fun same => ?_⟩
      refine List.forall_mem_cons.mpr ⟨?_, all (by omega)⟩
      have whole : piece.length ≤ (cInt piece.length).toNat := by
        rw [List.length_take] at same taken
        omega
      rw [cInt] at nonneg whole
      split at nonneg
      next low =>
        rw [if_pos low] at whole
        omega
      next high =>
        rw [if_neg high] at whole
        omega

/-- All of the pieces gets to the cipher exactly when their sizes are small. -/
theorem sent_eq_flatten_iff :
    sent pieces = some pieces.flatten ↔ Small pieces :=
  ⟨fun run => (length_sent run).2 rfl, sent_small⟩

end Consume

section Encrypt
variable {evp : Cipher} {filter : CipherBlock evp}

theorem processBlock_encrypt (encrypts : filter.encrypt = true) (fresh : saltDone filter = false)
    (source : Bytes) : cipherBlockProcessBlock filter source =
      (cipherBlockProcessBlock (initCipher filter filter.random) source).map fun processed =>
        (cipherBlockMagic ++ filter.random ++ processed.1, processed.2) := by
  have notYet : ¬ saltDone filter = true := by rw [fresh]; simp
  have started : saltDone (initCipher filter filter.random) = true := rfl
  rw [cipherBlockProcessBlock, cipherBlockProcessBlock, processHeader, processHeader, if_neg notYet,
    if_pos encrypts, if_pos started]
  dsimp only
  cases processData (initCipher filter filter.random) source with
  | error failure => rfl
  | ok processed => rfl

/-- The header comes first, whatever the first piece is. -/
theorem consume_encrypt (encrypts : filter.encrypt = true) (fresh : saltDone filter = false)
    (pieces : List Bytes) (out : Bytes) : consume filter pieces out =
      consume (initCipher filter filter.random) pieces
        (out ++ (cipherBlockMagic ++ filter.random)) := by
  have notYet : ¬ saltDone filter = true := by rw [fresh]; simp
  have started : saltDone (initCipher filter filter.random) = true := rfl
  have context : (initCipher filter filter.random).cipherContext =
      some (evp.init filter.encrypt filter.pass filter.random) := rfl
  cases pieces with
  | nil =>
    have none : cipherBlockProcessBlock (initCipher filter filter.random) [] =
        .ok ([], initCipher filter filter.random) := by
      rw [cipherBlockProcessBlock, processHeader, if_pos started]
      rfl
    rw [consume, consume, flushAll, flushAll, if_neg notYet, processBlock_encrypt encrypts fresh,
      none, if_pos started]
    dsimp only [Except.map]
    cases cipherBlockFlush (initCipher filter filter.random) with
    | error failure => rfl
    | ok output =>
      dsimp only
      rw [List.append_nil, List.nil_append, List.append_assoc out]
  | cons piece pieces =>
    rw [consume, consume, processBlock_encrypt encrypts fresh]
    cases cipherBlockProcessBlock (initCipher filter filter.random) piece with
    | error failure => rfl
    | ok processed =>
      dsimp only [Except.map]
      rw [List.append_assoc out]

theorem ends_iff {rooms : Nat → Nat} (positive : ∀ call, 0 < rooms call) (idle : Idle filter)
    {pieces : List Bytes} {result : Result} :
    Ends rooms filter pieces result ↔ consume filter pieces [] = result := by
  have ends := drive_consume positive idle pieces 0 []
  constructor
  · exact fun other => ends.returns.unique other.returns
  · rintro rfl
    exact ends

/-- The encrypted stream is written exactly when no piece is too large. -/
theorem encrypt_iff {rooms : Nat → Nat} (positive : ∀ call, 0 < rooms call)
    (idle : Idle filter) (encrypts : filter.encrypt = true) (fresh : saltDone filter = false)
    (pieces : List Bytes) :
    Ends rooms filter pieces (.ok (salted evp filter.pass filter.random pieces.flatten)) ↔
      Small pieces := by
  rw [ends_iff positive idle, consume_encrypt encrypts fresh, consume_started rfl,
    ← sent_eq_flatten_iff, List.nil_append, encrypts, salted]
  cases sent pieces with
  | none => simp
  | some input =>
    dsimp only
    rw [evp.stream_encrypt, finish, Except.ok.injEq, Option.some.injEq]
    exact ⟨fun same => evp.encrypted_inj (List.append_cancel_left same), fun same => by rw [same]⟩

end Encrypt

section Decrypt
variable {evp : Cipher} {filter : CipherBlock evp}

section Decrypt
variable (decrypts : filter.encrypt = false)
include decrypts

theorem processHeader_decrypt (fresh : saltDone filter = false)
    (source : Bytes) : processHeader filter source =
      if source = [] then .ok ([], [], filter)
      else if cipherBlockHeaderSize ≤ filter.header.length + source.length then
        let size := cipherBlockHeaderSize - filter.header.length
        let header := filter.header ++ source.take size
        if header.take cipherBlockMagicSize ≠ cipherBlockMagic then
          .error (cryptoError "cipher header invalid")
        else .ok ([], source.drop size,
          initCipher { filter with header := header } (header.drop cipherBlockMagicSize))
      else .ok ([], [], { filter with header := filter.header ++ source }) := by
  rw [processHeader, if_neg (by rw [fresh]; simp), if_neg (by rw [decrypts]; simp)]

theorem processBlock_short (fresh : saltDone filter = false)
    {source : Bytes} (short : filter.header.length + source.length < cipherBlockHeaderSize) :
    cipherBlockProcessBlock filter source =
      .ok ([], { filter with header := filter.header ++ source }) := by
  rw [cipherBlockProcessBlock, processHeader_decrypt decrypts fresh]
  by_cases none : source = []
  · subst none
    rw [if_pos rfl, List.append_nil]
    rfl
  · rw [if_neg none, if_neg (by omega)]
    rfl

/-- An input that ends before the header is complete. -/
theorem consume_short (fresh : saltDone filter = false) (pieces : List Bytes) (out : Bytes)
    (short : filter.header.length + pieces.flatten.length < cipherBlockHeaderSize) :
    consume filter pieces out = .error (cryptoError "cipher header missing") := by
  induction pieces generalizing filter out with
  | nil =>
    have context : filter.cipherContext = none := by simpa [saltDone] using fresh
    have short : filter.header.length + ([] : Bytes).length < cipherBlockHeaderSize := short
    rw [consume, flushAll, if_neg (by rw [fresh]; simp), processBlock_short decrypts fresh short]
    dsimp only
    rw [cipherBlockFlush, context]
  | cons piece pieces ih =>
    rw [List.flatten_cons, List.length_append] at short
    rw [consume, processBlock_short decrypts fresh (by omega)]
    refine @ih { filter with header := filter.header ++ piece } decrypts fresh _ ?_
    rw [List.length_append]
    omega

/-- The piece that completes the header goes on with what is behind it. -/
theorem processBlock_complete (fresh : saltDone filter = false)
    {source salt : Bytes} (room : filter.header.length < cipherBlockHeaderSize)
    (enough : cipherBlockHeaderSize ≤ filter.header.length + source.length)
    (header : filter.header ++ source.take (cipherBlockHeaderSize - filter.header.length) =
      cipherBlockMagic ++ salt) :
    cipherBlockProcessBlock filter source =
      cipherBlockProcessBlock (initCipher { filter with header := cipherBlockMagic ++ salt } salt)
        (source.drop (cipherBlockHeaderSize - filter.header.length)) := by
  have some : source ≠ [] := by
    rintro rfl
    rw [List.length_nil] at enough
    omega
  have magic : (cipherBlockMagic ++ salt).take cipherBlockMagicSize = cipherBlockMagic := by
    rw [← length_magic, List.take_left]
  have behind : (cipherBlockMagic ++ salt).drop cipherBlockMagicSize = salt := by
    rw [← length_magic, List.drop_left]
  have started : saltDone (initCipher { filter with header := cipherBlockMagic ++ salt } salt) =
    true := rfl
  rw [cipherBlockProcessBlock, processHeader_decrypt decrypts fresh, if_neg some, if_pos enough]
  dsimp only
  rw [header, magic, behind, if_neg (not_not_intro rfl), cipherBlockProcessBlock, processHeader,
    if_pos started]

theorem consume_decrypt (fresh : saltDone filter = false)
    {pieces : List Bytes} {salt body : Bytes} (out : Bytes) (size : salt.length = pkcs5SaltLen)
    (room : filter.header.length < cipherBlockHeaderSize)
    (whole : filter.header ++ pieces.flatten = cipherBlockMagic ++ salt ++ body) :
    (behindHeader (cipherBlockHeaderSize - filter.header.length) pieces).flatten = body ∧
    consume filter pieces out =
      match sent (behindHeader (cipherBlockHeaderSize - filter.header.length) pieces) with
      | none => .error refused
      | some input => finish (evp.stream (evp.init false filter.pass salt) input) out := by
  have front : (cipherBlockMagic ++ salt).length = cipherBlockHeaderSize := by
    rw [List.length_append, size]
    rfl
  induction pieces generalizing filter out with
  | nil =>
    have length := congrArg List.length whole
    rw [List.flatten_nil, List.append_nil, List.length_append, front] at length
    omega
  | cons piece pieces ih =>
    rw [List.flatten_cons, ← List.append_assoc] at whole
    rw [behindHeader]
    by_cases short : filter.header.length + piece.length < cipherBlockHeaderSize
    · rw [if_neg (by omega), consume, processBlock_short decrypts fresh short]
      dsimp only
      have rest : cipherBlockHeaderSize - filter.header.length - piece.length =
          cipherBlockHeaderSize - (filter.header ++ piece).length := by
        rw [List.length_append, Nat.sub_sub]
      have later := @ih { filter with header := filter.header ++ piece } decrypts fresh (out ++ [])
        (by rw [List.length_append]; exact short) whole
      rw [rest]
      rw [List.append_nil] at later
      rw [List.append_nil]
      exact later
    · have enough : cipherBlockHeaderSize ≤ filter.header.length + piece.length := by omega
      have split : (filter.header ++ piece.take (cipherBlockHeaderSize - filter.header.length)) ++
          (piece.drop (cipherBlockHeaderSize - filter.header.length) ++ pieces.flatten) =
          cipherBlockMagic ++ salt ++ body := by
        rw [← whole, List.append_assoc, ← List.append_assoc (List.take _ piece),
          List.take_append_drop, List.append_assoc]
      have length : (filter.header ++
          piece.take (cipherBlockHeaderSize - filter.header.length)).length =
          (cipherBlockMagic ++ salt).length := by
        rw [front, List.length_append, List.length_take]
        omega
      obtain ⟨header, rest⟩ := List.append_inj split length
      rw [if_pos (by omega), List.flatten_cons]
      refine ⟨rest, ?_⟩
      rw [consume, processBlock_complete decrypts fresh room enough header, ← decrypts]
      exact consume_started rfl (piece.drop _ :: pieces) out

end Decrypt

theorem decrypt_ends {rooms : Nat → Nat} (positive : ∀ call, 0 < rooms call)
    (idle : Idle filter) (decrypts : filter.encrypt = false) (fresh : saltDone filter = false)
    (start : filter.header = []) {salt plain : Bytes} (size : salt.length = pkcs5SaltLen)
    {pieces : List Bytes} (whole : pieces.flatten = salted evp filter.pass salt plain)
    (small : Small (behindHeader cipherBlockHeaderSize pieces)) :
    Ends rooms filter pieces (.ok plain) := by
  have room : filter.header.length < cipherBlockHeaderSize := by rw [start]; decide
  have front : filter.header ++ pieces.flatten =
      cipherBlockMagic ++ salt ++ evp.encrypted filter.pass salt plain := by
    rw [start]
    exact whole
  obtain ⟨body, ends⟩ := consume_decrypt decrypts fresh [] size room front
  rw [start] at body ends
  have body : (behindHeader cipherBlockHeaderSize pieces).flatten =
    evp.encrypted filter.pass salt plain := body
  rw [ends_iff positive idle, ends]
  change (match sent (behindHeader cipherBlockHeaderSize pieces) with
    | none => _
    | some input => _) = _
  rw [sent_small small, body]
  dsimp only
  rw [evp.stream_decrypt]
  rfl

end Decrypt

section Filter
variable {evp : Cipher}

/-- The encrypt filter writes one stream exactly when no piece is too large, the decrypt filter gives
the plain text back, a header that is not complete is an error, and all calls end. -/
theorem cipherBlock_filter (evp : Cipher) (pass random : Bytes)
    (randomSize : random.length = pkcs5SaltLen) :
    (∀ (pieces : List Bytes) (rooms : Nat → Nat), (∀ call, 0 < rooms call) →
      (Ends rooms (cipherBlockNew evp true pass random randomSize) pieces
        (.ok (salted evp pass random pieces.flatten)) ↔ Small pieces)) ∧
    (∀ (salt plain : Bytes) (pieces : List Bytes) (rooms : Nat → Nat),
      salt.length = pkcs5SaltLen → (∀ call, 0 < rooms call) →
      pieces.flatten = salted evp pass salt plain →
      Small (behindHeader cipherBlockHeaderSize pieces) →
      Ends rooms (cipherBlockNew evp false pass random randomSize) pieces (.ok plain)) ∧
    (∀ (pieces : List Bytes) (rooms : Nat → Nat), (∀ call, 0 < rooms call) →
      pieces.flatten.length < cipherBlockHeaderSize →
      Ends rooms (cipherBlockNew evp false pass random randomSize) pieces
        (.error (cryptoError "cipher header missing"))) ∧
    ∀ (encrypt : Bool) (pieces : List Bytes) (rooms : Nat → Nat), (∀ call, 0 < rooms call) →
      ∃ result, Ends rooms (cipherBlockNew evp encrypt pass random randomSize) pieces result := by
  have idle : ∀ encrypt, Idle (cipherBlockNew evp encrypt pass random randomSize) :=
    fun _ => ⟨rfl, rfl⟩
  refine ⟨?_, ?_, ?_, ?_⟩
  · intro pieces rooms positive
    exact encrypt_iff positive (idle true) rfl rfl pieces
  · intro salt plain pieces rooms size positive whole small
    exact decrypt_ends positive (idle false) rfl rfl rfl size whole small
  · intro pieces rooms positive short
    rw [ends_iff positive (idle false)]
    apply consume_short rfl rfl
    rw [← Nat.zero_add (List.length _)] at short
    exact short
  · intro encrypt pieces rooms positive
    exact ⟨_, drive_consume positive (idle encrypt) pieces 0 []⟩

theorem cipherBlock_filter_hold : Ends (fun _ => 1)
    (cipherBlockNew holdCipher false [112] [0, 1, 2, 3, 4, 5, 6, 7] rfl)
    [cipherBlockMagic, [8, 9, 10], [11, 12, 13, 14, 15, 113], [114, 115]] (.ok [1, 2, 3]) :=
  (cipherBlock_filter holdCipher [112] [0, 1, 2, 3, 4, 5, 6, 7] rfl).2.1
    [8, 9, 10, 11, 12, 13, 14, 15] [1, 2, 3]
    [cipherBlockMagic, [8, 9, 10], [11, 12, 13, 14, 15, 113], [114, 115]] (fun _ => 1) rfl
    (fun _ => Nat.one_pos) rfl (by rw [Small]; decide)

/-- Nothing of a piece of 4 GiB is encrypted. -/
theorem cipherBlock_filter_fails : ∃ (pieces : List Bytes) (rooms : Nat → Nat),
    (∀ call, 0 < rooms call) ∧
    ¬ Ends rooms (cipherBlockNew holdCipher true [112] [0, 1, 2, 3, 4, 5, 6, 7] rfl) pieces
      (.ok (salted holdCipher [112] [0, 1, 2, 3, 4, 5, 6, 7] pieces.flatten)) := by
  refine ⟨[List.replicate (2 ^ 32) 0], fun _ => 1, fun _ => Nat.one_pos, ?_⟩
  intro ends
  have small := (encrypt_iff (fun _ => Nat.one_pos) ⟨rfl, rfl⟩ rfl rfl _).mp ends _
    List.mem_cons_self
  rw [List.length_replicate] at small
  exact absurd small (by decide)

end Filter

end CipherBlock
