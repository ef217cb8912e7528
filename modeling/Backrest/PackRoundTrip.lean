import Backrest.PackAnswer
import Backrest.PackCall

/-!
# What is packed is unpacked

A reader that asks for fields of a pack, in the order of their ids, gets what
the calls of the writer left there, and ends where the pack ends, so that the
next pack of a stream can follow. A reader that mirrors the writer gets back
every value, the nulls and the defaults that were not written included.
-/

namespace Pack

open Text StringId Base128

section Mirror

mutual

/-- The read that goes with a write: the same type, id and default. -/
def Call.request : Call → Request
  | .null => .null 0
  | .scalar type _ id _ defaultValue => .scalar type id defaultValue
  | .str _ id _ defaultValue => .str id defaultValue
  | .bin _ id => .bin id
  | .strLst _ id => .strLst id
  | .packNull id => .pack id []
  | .pack calls id => .pack id (requestsOf calls)
  | .array id calls => .array id (requestsOf calls)
  | .obj id calls => .obj id (requestsOf calls)

def requestsOf : List Call → List Request
  | [] => []
  | call :: rest => call.request :: requestsOf rest

end

mutual

/-- What was written. A list of strings comes back up to its first null. -/
def Call.answer : Call → Answer
  | .null => .null true
  | .scalar type value _ _ _ => .scalar type value
  | .str value _ _ _ => .bytes value
  | .bin value _ => .bytes value
  | .strLst value _ => .strLst (value.map (·.takeWhile Option.isSome))
  | .packNull _ => .packNull
  | .pack calls _ => .pack (answersOf calls)
  | .array _ calls => .container (answersOf calls)
  | .obj _ calls => .container (answersOf calls)

def answersOf : List Call → List Answer
  | [] => []
  | call :: rest => call.answer :: answersOf rest

end

mutual

def Call.Aligned : Call → Prop
  | .pack calls _ => Aligned 0 0 0 calls
  | .array _ calls => Aligned 0 0 0 calls
  | .obj _ calls => Aligned 0 0 0 calls
  | _ => True

/-- The reader counts the ids as the writer does: a null with an id of its own moves the reader but
is one null for the writer, so that the next call must have an id too. -/
def Aligned : Nat → Nat → Nat → List Call → Prop
  | _, _, _, [] => True
  | last, nulls, read, call :: rest =>
    call.Aligned ∧ (if call.id = 0 then last + nulls = read else read < call.id) ∧
      idAt call.id read < uintMax - 1 ∧
      match call.field? (call.nextId last nulls) with
      | none => Aligned last (nulls + 1) (idAt call.id read) rest
      | some _ => Aligned (call.nextId last nulls) 0 (call.nextId last nulls) rest

end

mutual

def Call.decAligned : (call : Call) → Decidable call.Aligned
  | .pack calls _ =>
    have := decAligned 0 0 0 calls
    decidable_of_iff (Aligned 0 0 0 calls) (by rw [Call.Aligned])
  | .array _ calls =>
    have := decAligned 0 0 0 calls
    decidable_of_iff (Aligned 0 0 0 calls) (by rw [Call.Aligned])
  | .obj _ calls =>
    have := decAligned 0 0 0 calls
    decidable_of_iff (Aligned 0 0 0 calls) (by rw [Call.Aligned])
  | .null => decidable_of_iff True (by simp only [Call.Aligned])
  | .scalar _ _ _ _ _ => decidable_of_iff True (by simp only [Call.Aligned])
  | .str _ _ _ _ => decidable_of_iff True (by simp only [Call.Aligned])
  | .bin _ _ => decidable_of_iff True (by simp only [Call.Aligned])
  | .strLst _ _ => decidable_of_iff True (by simp only [Call.Aligned])
  | .packNull _ => decidable_of_iff True (by simp only [Call.Aligned])

def decAligned : (last nulls read : Nat) → (calls : List Call) →
    Decidable (Aligned last nulls read calls)
  | _, _, _, [] => decidable_of_iff True (by rw [Aligned])
  | last, nulls, read, call :: rest =>
    have := call.decAligned
    match isField : call.field? (call.nextId last nulls) with
    | none =>
      have := decAligned last (nulls + 1) (idAt call.id read) rest
      decidable_of_iff (call.Aligned ∧ (if call.id = 0 then last + nulls = read else read < call.id) ∧
        idAt call.id read < uintMax - 1 ∧ Aligned last (nulls + 1) (idAt call.id read) rest)
        (by rw [Aligned, isField])
    | some _ =>
      have := decAligned (call.nextId last nulls) 0 (call.nextId last nulls) rest
      decidable_of_iff (call.Aligned ∧ (if call.id = 0 then last + nulls = read else read < call.id) ∧
        idAt call.id read < uintMax - 1 ∧
        Aligned (call.nextId last nulls) 0 (call.nextId last nulls) rest)
        (by rw [Aligned, isField])

end

instance (last nulls read : Nat) (calls : List Call) : Decidable (Aligned last nulls read calls) :=
  decAligned last nulls read calls

theorem request_id (call : Call) : call.request.id = call.id := by
  cases call <;> (rw [Call.request]; rfl)

theorem idAt_eq {call : Call} {last nulls read : Nat}
    (counts : if call.id = 0 then last + nulls = read else read < call.id) :
    idAt call.id read = call.nextId last nulls ∧ read < idAt call.id read := by
  unfold idAt Call.nextId
  by_cases auto : call.id = 0
  · rw [if_pos auto] at counts
    rw [if_pos auto, if_pos auto, counts]
    exact ⟨rfl, Nat.lt_succ_self read⟩
  · rw [if_neg auto] at counts
    rw [if_neg auto, if_neg auto]
    exact ⟨rfl, counts⟩

/-- The fields to come are those that the reader has not passed. -/
theorem Aligned.head {calls : List Call} : ∀ {last nulls read : Nat}, Aligned last nulls read calls →
    ∀ field ∈ (fieldsOf last nulls calls).head?, read < field.id := by
  induction calls with
  | nil =>
    intro last nulls read _ field mem
    rw [fieldsOf] at mem
    cases mem
  | cons call rest ih =>
    intro last nulls read aligned field mem
    rw [Aligned] at aligned
    obtain ⟨-, counts, -, others⟩ := aligned
    obtain ⟨same, above⟩ := idAt_eq counts
    rw [fieldsOf] at mem
    cases isField : call.field? (call.nextId last nulls) with
    | none =>
      rw [isField] at others mem
      exact Nat.lt_trans above (ih others field mem)
    | some head =>
      rw [isField, List.head?_cons, Option.mem_some_iff] at mem
      rw [← mem, field?_id isField, ← same]
      exact above

theorem skip_none {id last : Nat} {fields : List Field}
    (above : ∀ field ∈ fields.head?, id ≤ field.id) : skip id last fields = some (last, fields) := by
  cases fields with
  | nil => rw [skip]
  | cons field rest =>
    have own := above field rfl
    rw [skip, if_neg (by omega)]

theorem filter_none {id : Nat} {fields : List Field}
    (above : ∀ field ∈ fields.head?, id < field.id) : fields.head?.filter (·.id = id) = none := by
  rw [Option.filter_eq_none_iff]
  intro field mem
  have own := above field mem
  simp only [decide_eq_true_eq]
  omega

theorem skip_flat (id : Nat) {fields : List Field} : ∀ (last : Nat),
    (∀ field ∈ fields, field.isFlat = true) → (skip id last fields).isSome = true := by
  induction fields with
  | nil =>
    intro last _
    rw [skip]
    rfl
  | cons field rest ih =>
    intro last flat
    rw [skip, if_pos (flat field List.mem_cons_self)]
    split
    · exact ih field.id fun other mem => flat other (List.mem_cons_of_mem field mem)
    · rfl

theorem strFields_flat (values : List (Option Bytes)) : ∀ (last nulls : Nat),
    ∀ field ∈ strFields last nulls values, field.isFlat = true ∧ last + nulls < field.id := by
  induction values with
  | nil =>
    intro last nulls field mem
    rw [strFields] at mem
    cases mem
  | cons value rest ih =>
    intro last nulls field mem
    cases value with
    | none =>
      rw [strFields] at mem
      obtain ⟨flat, above⟩ := ih last (nulls + 1) field mem
      exact ⟨flat, by omega⟩
    | some bytes =>
      rw [strFields] at mem
      rcases List.mem_cons.mp mem with rfl | later
      · exact ⟨rfl, Nat.lt_succ_self _⟩
      · obtain ⟨flat, above⟩ := ih (last + nulls + 1) 0 field later
        exact ⟨flat, by omega⟩

theorem strsOf_strFields (values : List (Option Bytes)) : ∀ (last : Nat),
    strsOf last (strFields last 0 values) = some (values.takeWhile Option.isSome) := by
  induction values with
  | nil =>
    intro last
    rw [strFields, strsOf]
    rfl
  | cons value rest ih =>
    intro last
    cases value with
    | none =>
      have fields := strFields_flat rest last (0 + 1)
      rw [strFields, List.takeWhile_cons_of_neg (by simp)]
      cases isFields : strFields last (0 + 1) rest with
      | nil => rw [strsOf]
      | cons field others =>
        rw [isFields] at fields
        have above := (fields field List.mem_cons_self).2
        obtain ⟨stop, skipped⟩ := Option.isSome_iff_exists.mp
          (skip_flat (uintMax - 1) last fun other mem => (fields other mem).1)
        unfold strsOf
        rw [if_neg (by omega), skipped]
        rfl
    | some bytes =>
      rw [strFields, List.takeWhile_cons_of_pos rfl]
      unfold strsOf
      rw [Field.id, if_pos rfl]
      dsimp only
      rw [ih]
      rfl

theorem default_answer {call : Call} {id : Nat} (valid : call.Valid)
    (isNull : call.field? id = none) : call.request.default = some call.answer := by
  cases call with
  | null => rw [Call.request, Call.answer, Request.default]
  | scalar type value own defaultWrite defaultValue =>
    rw [Call.field?] at isNull
    split at isNull
    · rename_i isDefault
      have same : value = type.default defaultValue := by
        rw [Bool.and_eq_true] at isDefault
        exact beq_iff_eq.mp isDefault.2
      rw [Call.request, Call.answer, Request.default, ← same]
    · cases isNull
  | str value own defaultWrite defaultValue =>
    rw [Call.field?] at isNull
    rw [Call.Valid] at valid
    have same : value = defaultValue := by
      split at isNull
      · rename_i isDefault
        rw [Bool.and_eq_true] at isDefault
        exact beq_iff_eq.mp isDefault.2
      · have none := Option.map_eq_none_iff.mp isNull
        rw [none, (valid.1 none).2]
    rw [Call.request, Call.answer, Request.default, same]
  | bin value own =>
    rw [Call.field?, Option.map_eq_none_iff] at isNull
    rw [Call.request, Call.answer, Request.default, isNull]
  | strLst value own =>
    rw [Call.field?, Option.map_eq_none_iff] at isNull
    rw [Call.request, Call.answer, Request.default, isNull]
    rfl
  | packNull own => rw [Call.request, Call.answer, Request.default]
  | pack calls own =>
    rw [Call.field?] at isNull
    cases isNull
  | array own calls =>
    rw [Call.field?] at isNull
    cases isNull
  | obj own calls =>
    rw [Call.field?] at isNull
    cases isNull

mutual

theorem field_answer : ∀ (call : Call) ⦃id : Nat⦄ ⦃field : Field⦄, call.Valid → call.Aligned →
    call.field? id = some field →
    call.request.answer field = some call.answer ∧ call.request.isNull = false
  | .null => by
    intro id field _ _ isField
    rw [Call.field?] at isField
    cases isField
  | .scalar type value own defaultWrite defaultValue => by
    intro id field _ _ isField
    rw [Call.field?] at isField
    split at isField
    · cases isField
    · cases isField
      rw [Call.request, Request.answer, if_pos rfl, type.scalar.ofNat_toNat, Call.answer]
      exact ⟨rfl, rfl⟩
  | .str value own defaultWrite defaultValue => by
    intro id field _ _ isField
    rw [Call.field?] at isField
    split at isField
    · cases isField
    · obtain ⟨bytes, rfl, rfl⟩ := Option.map_eq_some_iff.mp isField
      rw [Call.request, Request.answer, Call.answer]
      exact ⟨rfl, rfl⟩
  | .bin value own => by
    intro id field _ _ isField
    rw [Call.field?] at isField
    obtain ⟨bytes, rfl, rfl⟩ := Option.map_eq_some_iff.mp isField
    rw [Call.request, Request.answer, Call.answer]
    exact ⟨rfl, rfl⟩
  | .strLst value own => by
    intro id field _ _ isField
    rw [Call.field?] at isField
    obtain ⟨values, rfl, rfl⟩ := Option.map_eq_some_iff.mp isField
    rw [Call.request, Request.answer, strsOf_strFields, Call.answer]
    exact ⟨rfl, rfl⟩
  | .packNull own => by
    intro id field _ _ isField
    rw [Call.field?] at isField
    cases isField
  | .pack calls own => by
    intro id field valid aligned isField
    rw [Call.Valid] at valid
    rw [Call.Aligned] at aligned
    rw [Call.field?] at isField
    cases isField
    rw [Call.request, Request.answer, fields_answers calls valid.1 aligned, Call.answer]
    exact ⟨rfl, rfl⟩
  | .array own calls => by
    intro id field valid aligned isField
    rw [Call.Valid] at valid
    rw [Call.Aligned] at aligned
    rw [Call.field?] at isField
    cases isField
    rw [Call.request, Request.answer, fields_answers calls valid aligned, Call.answer]
    exact ⟨rfl, rfl⟩
  | .obj own calls => by
    intro id field valid aligned isField
    rw [Call.Valid] at valid
    rw [Call.Aligned] at aligned
    rw [Call.field?] at isField
    cases isField
    rw [Call.request, Request.answer, fields_answers calls valid aligned, Call.answer]
    exact ⟨rfl, rfl⟩

/-- The reads that go with the writes are answered with what was written. -/
theorem fields_answers : ∀ (calls : List Call) ⦃last nulls read : Nat⦄, ValidCalls last nulls calls →
    Aligned last nulls read calls →
    answers (requestsOf calls) read (fieldsOf last nulls calls) = some (answersOf calls)
  | [] => by
    intro last nulls read _ _
    rw [requestsOf, fieldsOf, answersOf, answers, skip]
    rfl
  | call :: rest => by
    intro last nulls read valid aligned
    rw [ValidCalls] at valid
    rw [Aligned] at aligned
    obtain ⟨own, others⟩ := valid
    obtain ⟨ownAligned, counts, range, othersAligned⟩ := aligned
    obtain ⟨same, above⟩ := idAt_eq counts
    rw [requestsOf, fieldsOf, answersOf, answers, request_id]
    dsimp only
    rw [if_pos ⟨above, range⟩]
    cases isField : call.field? (call.nextId last nulls) with
    | none =>
      rw [isField] at others othersAligned
      have head := othersAligned.head
      dsimp only
      rw [skip_none fun field mem => Nat.le_of_lt (head field mem), Option.bind_some, filter_none head]
      dsimp only
      rw [default_answer own isField, Option.bind_some, fields_answers rest others.2 othersAligned]
      rfl
    | some field =>
      rw [isField] at others othersAligned
      have isId := field?_id isField
      obtain ⟨isAnswer, notNull⟩ := field_answer call own ownAligned isField
      have found : (some field).filter (·.id = idAt call.id read) = some field := by
        rw [Option.filter_some, isId, same, decide_eq_true rfl]
        rfl
      have head : ∀ other ∈ (field :: fieldsOf (call.nextId last nulls) 0 rest).head?,
          idAt call.id read ≤ other.id := by
        intro other mem
        rw [List.head?_cons, Option.mem_some_iff] at mem
        rw [← mem, isId, same]
      dsimp only
      rw [skip_none head, Option.bind_some, List.head?_cons, found]
      dsimp only
      rw [isAnswer, Option.bind_some, notNull, if_neg Bool.false_ne_true, List.tail_cons, same,
        fields_answers rest others.2 othersAligned]
      rfl

end

end Mirror

section RoundTrip

/-- A pack that is written to a buffer or to io. -/
def packed (write : Option Nat) (calls : List Call) : Except Error Bytes := do
  .ok (pckWriteEnd (← writeCalls calls { write })).delivered

/-- The requests on a source, and the reader behind the end of the pack. -/
def unpacked (read : Option Nat) (requests : List Request) (source : Bytes) :
    Except Error (List Answer × Bytes) := do
  let (answers, this) ← readRequests requests { read, rest := source }
  .ok (answers, (← pckReadEnd this).rest)

theorem packed_spec (write : Option Nat) {calls : List Call} (valid : ValidCalls 0 0 calls) :
    packed write calls = .ok (fieldsBytes 0 (fieldsOf 0 0 calls) ++ [0]) := by
  obtain ⟨after, writes, wrote⟩ := @write_calls calls { write } 0 0 valid rfl rfl
  have ends := adds_u64 after 0
  have all : (pckWriteU64Internal after 0).delivered = fieldsBytes 0 (fieldsOf 0 0 calls) ++ [0] := by
    rw [ends.delivered, wrote.delivered, encode_zero]
    rfl
  have same : (pckWriteEnd after).delivered = (pckWriteU64Internal after 0).delivered := by
    unfold pckWriteEnd
    dsimp only
    cases (pckWriteU64Internal after 0).write with
    | none => rfl
    | some size =>
      dsimp only [PackWrite.delivered]
      rw [List.append_nil]
  unfold packed
  rw [writes]
  dsimp only [bind, Except.bind]
  rw [same, all]

/-- Calls without ids of their own count them alike. -/
theorem aligned_of_auto {calls : List Call} : ∀ {last nulls read : Nat},
    (∀ call ∈ calls, call.id = 0 ∧ call.Aligned) → last + nulls = read →
    read + calls.length < uintMax - 1 → Aligned last nulls read calls := by
  induction calls with
  | nil =>
    intro last nulls read _ _ _
    rw [Aligned]
    exact trivial
  | cons call rest ih =>
    intro last nulls read auto same few
    obtain ⟨isAuto, own⟩ := auto call List.mem_cons_self
    have others : ∀ other ∈ rest, other.id = 0 ∧ other.Aligned := fun other mem =>
      auto other (List.mem_cons_of_mem call mem)
    have isId : idAt call.id read = read + 1 := by
      rw [idAt, if_pos isAuto]
    rw [List.length_cons] at few
    rw [Aligned, if_pos isAuto, isId]
    refine ⟨own, same, by omega, ?_⟩
    cases call.field? (call.nextId last nulls) with
    | none => exact ih others (by omega) (by omega)
    | some field =>
      have next : call.nextId last nulls = read + 1 := by
        rw [Call.nextId, if_pos isAuto, same]
      rw [next]
      exact ih others rfl (by omega)

theorem valid_of_auto {calls : List Call} : ∀ {last nulls : Nat},
    (∀ call ∈ calls, call.id = 0 ∧ call.Valid) → last + nulls + calls.length < uintMax - 2 →
    ValidCalls last nulls calls := by
  induction calls with
  | nil =>
    intro last nulls _ _
    rw [ValidCalls]
    exact trivial
  | cons call rest ih =>
    intro last nulls auto few
    obtain ⟨isAuto, own⟩ := auto call List.mem_cons_self
    have others : ∀ other ∈ rest, other.id = 0 ∧ other.Valid := fun other mem =>
      auto other (List.mem_cons_of_mem call mem)
    have next : call.nextId last nulls = last + nulls + 1 := by
      rw [Call.nextId, if_pos isAuto]
    rw [List.length_cons] at few
    rw [ValidCalls, next]
    refine ⟨own, ?_⟩
    cases call.field? (last + nulls + 1) with
    | none => exact ⟨by omega, ih others (by omega)⟩
    | some field => exact ⟨⟨by omega, by omega⟩, ih others (by omega)⟩

theorem unpacked_fields (read : Option Nat) (ready : read ≠ some 0) {fields : List Field}
    (valid : ValidFrom 0 fields) {requests : List Request} {result : List Answer}
    (isAnswers : answers requests 0 fields = some result) (tail : Bytes) :
    unpacked read requests (fieldsBytes 0 fields ++ [0] ++ tail) = .ok (result, tail) := by
  have between : Between tail { read, rest := fieldsBytes 0 fields ++ [0] ++ tail } 0 fields :=
    ⟨rfl, rfl, by rw [List.append_assoc]; rfl⟩
  obtain ⟨after, reads, done⟩ := @read_requests requests tail
    { read, rest := fieldsBytes 0 fields ++ [0] ++ tail } 0 fields result ready valid
    (At.between between) (by decide) isAnswers
  obtain ⟨ended, ends, isRest⟩ := done.pckReadEnd ready rfl
  unfold unpacked
  rw [reads]
  dsimp only [bind, Except.bind]
  rw [ends]
  dsimp only
  rw [isRest]

/-- A reader that mirrors the writer gets back what was written, and ends where the pack ends. -/
theorem unpacked_mirror (write read : Option Nat) (ready : read ≠ some 0) {calls : List Call}
    (valid : ValidCalls 0 0 calls) (aligned : Aligned 0 0 0 calls) (tail : Bytes) :
    ∃ bytes, packed write calls = .ok bytes ∧
      unpacked read (requestsOf calls) (bytes ++ tail) = .ok (answersOf calls, tail) :=
  ⟨_, packed_spec write valid, unpacked_fields read ready (fieldsOf_valid calls valid)
    (fields_answers calls valid aligned) tail⟩

/-- Null, a number, a default, a string and an array with an inner pack. -/
def exampleCalls : List Call :=
  [.null, .scalar .u32 (750#32) 0 false (0#32), .scalar .bool true 0 false true,
    .str (some (zBytes "pg")) 37 false none,
    .array 0 [.scalar .i64 (-16#64) 0 true (0#64), .pack [.bin (some [0, 255]) 0] 0],
    .strLst (some [some (zBytes "a"), none, some (zBytes "b")]) 0]

theorem unpacked_mirror_example :
    ∃ bytes, packed (some 8) exampleCalls = .ok bytes ∧
      unpacked (some 3) (requestsOf exampleCalls) (bytes ++ [7]) = .ok (answersOf exampleCalls, [7]) :=
  unpacked_mirror (some 8) (some 3) (by decide) (by decide) (by decide) [7]

/-- A reader may ask for any of the ids, in order, with defaults of its own: what it does not ask
for is passed as long as it is flat, and what is not there is answered with the default. -/
theorem unpacked_selection (write read : Option Nat) (ready : read ≠ some 0) {calls : List Call}
    (valid : ValidCalls 0 0 calls) {requests : List Request} {result : List Answer}
    (isAnswers : answers requests 0 (fieldsOf 0 0 calls) = some result) (tail : Bytes) :
    ∃ bytes, packed write calls = .ok bytes ∧
      unpacked read requests (bytes ++ tail) = .ok (result, tail) :=
  ⟨_, packed_spec write valid, unpacked_fields read ready (fieldsOf_valid calls valid) isAnswers tail⟩

/-- The number at 1 is not there, and the one at 2 and the one in the array are not asked for. The null
ends the list of strings. -/
theorem unpacked_selection_example :
    ∃ bytes, packed none exampleCalls = .ok bytes ∧
      unpacked none [.scalar .u32 1 (5#32), .str 37 none,
          .array 0 [.pack 2 [.null 1, .bin 1, .str 3 none]], .strLst 0, .null 40] (bytes ++ [])
        = .ok ([.scalar .u32 (5#32), .bytes (some (zBytes "pg")),
          .container [.pack [.null false, .bytes (some [0, 255]), .bytes none]],
          .strLst (some [some (zBytes "a")]), .null true], []) :=
  unpacked_selection none none (by decide) (by decide) rfl []

end RoundTrip

end Pack
