import Backrest.PackRequest

/-!
# The fields that a writer writes

A list of calls of the writer stands for the fields that it leaves in the pack:
a call that writes null, or a default that is not forced, leaves nothing but a
gap in the ids. The bytes of the writer are the bytes of those fields.
-/

namespace Pack

open Text StringId Base128

section Call

def pckWriteScalar : (type : ScalarType) → PackWrite → type.Carrier → Nat → Bool → type.Carrier →
    Except Error PackWrite
  | .bool => pckWriteBool
  | .i32 => pckWriteI32
  | .i64 => pckWriteI64
  | .mode => pckWriteMode
  | .ptr => fun this value id defaultWrite _ => pckWritePtr this value id defaultWrite
  | .strId => pckWriteStrId
  | .time => pckWriteTime
  | .u32 => pckWriteU32
  | .u64 => pckWriteU64

theorem pckWriteScalar_eq (type : ScalarType) (this : PackWrite) (value : type.Carrier) (id : Nat)
    (defaultWrite : Bool) (defaultValue : type.Carrier) :
    pckWriteScalar type this value id defaultWrite defaultValue
      = writeScalar type.scalar this value id defaultWrite (type.default defaultValue) := by
  cases type <;> rfl

inductive Call where
  | null
  | scalar (type : ScalarType) (value : type.Carrier) (id : Nat) (defaultWrite : Bool)
    (defaultValue : type.Carrier)
  | str (value : Option Bytes) (id : Nat) (defaultWrite : Bool) (defaultValue : Option Bytes)
  | bin (value : Option Bytes) (id : Nat)
  | strLst (value : Option (List (Option Bytes))) (id : Nat)
  | packNull (id : Nat)
  | pack (calls : List Call) (id : Nat)
  | array (id : Nat) (calls : List Call)
  | obj (id : Nat) (calls : List Call)

def Call.id : Call → Nat
  | null => 0
  | scalar _ _ id _ _ => id
  | str _ id _ _ => id
  | bin _ id => id
  | strLst _ id => id
  | packNull id => id
  | pack _ id => id
  | array id _ => id
  | obj id _ => id

mutual

def Call.write : Call → PackWrite → Except Error PackWrite
  | .null, this => .ok (pckWriteNull this)
  | .scalar type value id defaultWrite defaultValue, this =>
    pckWriteScalar type this value id defaultWrite defaultValue
  | .str value id defaultWrite defaultValue, this => pckWriteStr this value id defaultWrite defaultValue
  | .bin value id, this => pckWriteBin this value id
  | .strLst value id, this => pckWriteStrLst this value id
  | .packNull id, this => pckWritePack this none id
  | .pack calls id, this => do
    pckWritePack this (some (pckWriteEnd (← writeCalls calls (pckWriteNewBuf [])))) id
  | .array id calls, this => do pckWriteArrayEnd (← writeCalls calls (← pckWriteArrayBegin this id))
  | .obj id calls, this => do pckWriteObjEnd (← writeCalls calls (← pckWriteObjBegin this id))

def writeCalls : List Call → PackWrite → Except Error PackWrite
  | [], this => .ok this
  | call :: rest, this => do writeCalls rest (← call.write this)

end

/-- The strings of a list that are there. -/
def strFields : Nat → Nat → List (Option Bytes) → List Field
  | _, _, [] => []
  | last, nulls, none :: rest => strFields last (nulls + 1) rest
  | last, nulls, some bytes :: rest =>
    .data (last + nulls + 1) .str bytes :: strFields (last + nulls + 1) 0 rest

def Call.nextId (call : Call) (last nulls : Nat) : Nat :=
  if call.id = 0 then last + nulls + 1 else call.id

mutual

def Call.field? : Call → Nat → Option Field
  | .null, _ => none
  | .scalar type value _ defaultWrite defaultValue, id =>
    if !defaultWrite && value == type.default defaultValue then none
    else some (.scalar id type.scalar.typeMap (type.scalar.toNat value))
  | .str value _ defaultWrite defaultValue, id =>
    if !defaultWrite && value == defaultValue then none else value.map (.data id .str)
  | .bin value _, id => value.map (.data id .bin)
  | .strLst value _, id => value.map fun values => .container id .array (strFields 0 0 values)
  | .packNull _, _ => none
  | .pack calls _, id => some (.pack id (fieldsOf 0 0 calls))
  | .array _ calls, id => some (.container id .array (fieldsOf 0 0 calls))
  | .obj _ calls, id => some (.container id .obj (fieldsOf 0 0 calls))

def fieldsOf : Nat → Nat → List Call → List Field
  | _, _, [] => []
  | last, nulls, call :: rest =>
    match call.field? (call.nextId last nulls) with
    | none => fieldsOf last (nulls + 1) rest
    | some field => field :: fieldsOf (call.nextId last nulls) 0 rest

end

mutual

/-- Sizes fit, and a string is null only where that is the default. -/
def Call.Valid : Call → Prop
  | .null => True
  | .scalar _ _ _ _ _ => True
  | .str value _ defaultWrite defaultValue =>
    (value = none → defaultWrite = false ∧ defaultValue = none) ∧ ∀ bytes ∈ value, bytes.length < 2 ^ 64
  | .bin value _ => ∀ bytes ∈ value, bytes.length < 2 ^ 64
  | .strLst value _ => ∀ values ∈ value,
    values.length < uintMax - 2 ∧ ∀ item ∈ values, ∀ bytes ∈ item, bytes.length < 2 ^ 64
  | .packNull _ => True
  | .pack calls _ => ValidCalls 0 0 calls ∧ (fieldsBytes 0 (fieldsOf 0 0 calls) ++ [0]).length < 2 ^ 64
  | .array _ calls => ValidCalls 0 0 calls
  | .obj _ calls => ValidCalls 0 0 calls

/-- The ids increase and leave those that mark an end. -/
def ValidCalls : Nat → Nat → List Call → Prop
  | _, _, [] => True
  | last, nulls, call :: rest =>
    call.Valid ∧ match call.field? (call.nextId last nulls) with
      | none => last + nulls + 1 < uintMax - 2 ∧ ValidCalls last (nulls + 1) rest
      | some _ => (last < call.nextId last nulls ∧ call.nextId last nulls < uintMax - 2) ∧
        ValidCalls (call.nextId last nulls) 0 rest

end

mutual

def Call.decValid : (call : Call) → Decidable call.Valid
  | .null => decidable_of_iff True (by rw [Call.Valid])
  | .scalar _ _ _ _ _ => decidable_of_iff True (by rw [Call.Valid])
  | .str value _ defaultWrite defaultValue =>
    decidable_of_iff ((value = none → defaultWrite = false ∧ defaultValue = none) ∧
      ∀ bytes ∈ value, bytes.length < 2 ^ 64) (by rw [Call.Valid])
  | .bin value _ => decidable_of_iff (∀ bytes ∈ value, bytes.length < 2 ^ 64) (by rw [Call.Valid])
  | .strLst value _ => decidable_of_iff (∀ values ∈ value, values.length < uintMax - 2 ∧
      ∀ item ∈ values, ∀ bytes ∈ item, bytes.length < 2 ^ 64) (by rw [Call.Valid])
  | .packNull _ => decidable_of_iff True (by rw [Call.Valid])
  | .pack calls _ =>
    have := decValidCalls 0 0 calls
    decidable_of_iff (ValidCalls 0 0 calls ∧
      (fieldsBytes 0 (fieldsOf 0 0 calls) ++ [0]).length < 2 ^ 64) (by rw [Call.Valid])
  | .array _ calls =>
    have := decValidCalls 0 0 calls
    decidable_of_iff (ValidCalls 0 0 calls) (by rw [Call.Valid])
  | .obj _ calls =>
    have := decValidCalls 0 0 calls
    decidable_of_iff (ValidCalls 0 0 calls) (by rw [Call.Valid])

def decValidCalls : (last nulls : Nat) → (calls : List Call) → Decidable (ValidCalls last nulls calls)
  | _, _, [] => decidable_of_iff True (by rw [ValidCalls])
  | last, nulls, call :: rest =>
    have := call.decValid
    match isField : call.field? (call.nextId last nulls) with
    | none =>
      have := decValidCalls last (nulls + 1) rest
      decidable_of_iff (call.Valid ∧ last + nulls + 1 < uintMax - 2 ∧ ValidCalls last (nulls + 1) rest)
        (by rw [ValidCalls, isField])
    | some _ =>
      have := decValidCalls (call.nextId last nulls) 0 rest
      decidable_of_iff (call.Valid ∧
        (last < call.nextId last nulls ∧ call.nextId last nulls < uintMax - 2) ∧
        ValidCalls (call.nextId last nulls) 0 rest) (by rw [ValidCalls, isField])

end

instance (last nulls : Nat) (calls : List Call) : Decidable (ValidCalls last nulls calls) :=
  decValidCalls last nulls calls

theorem field?_id {call : Call} {id : Nat} {field : Field} (isField : call.field? id = some field) :
    field.id = id := by
  cases call with
  | null => cases isField
  | scalar type value own defaultWrite defaultValue =>
    rw [Call.field?] at isField
    split at isField
    · cases isField
    · cases isField
      rfl
  | str value own defaultWrite defaultValue =>
    rw [Call.field?] at isField
    split at isField
    · cases isField
    · obtain ⟨bytes, -, rfl⟩ := Option.map_eq_some_iff.mp isField
      rfl
  | bin value own =>
    obtain ⟨bytes, -, rfl⟩ := Option.map_eq_some_iff.mp isField
    rfl
  | strLst value own =>
    rw [Call.field?] at isField
    obtain ⟨values, -, rfl⟩ := Option.map_eq_some_iff.mp isField
    rfl
  | packNull own => cases isField
  | pack calls own =>
    rw [Call.field?] at isField
    cases isField
    rfl
  | array own calls =>
    rw [Call.field?] at isField
    cases isField
    rfl
  | obj own calls =>
    rw [Call.field?] at isField
    cases isField
    rfl

end Call

section Write

/-- The same writer, in the same container, after some more fields. -/
structure Wrote (before : PackWrite) (bytes : Bytes) (after : PackWrite) : Prop where
  delivered : after.delivered = before.delivered ++ bytes
  write : after.write = before.write
  direct : before.write = none → after.written = before.written
  tagStack : after.tagStack = before.tagStack
  typeMap : after.tagStackTop.typeMap = before.tagStackTop.typeMap

theorem Wrote.refl (this : PackWrite) : Wrote this [] this :=
  ⟨(List.append_nil _).symm, rfl, fun _ => rfl, rfl, rfl⟩

theorem Wrote.trans {first second third : PackWrite} {a b : Bytes} (one : Wrote first a second)
    (two : Wrote second b third) : Wrote first (a ++ b) third where
  delivered := by rw [two.delivered, one.delivered, List.append_assoc]
  write := two.write.trans one.write
  direct none := (two.direct (one.write.trans none)).trans (one.direct none)
  tagStack := two.tagStack.trans one.tagStack
  typeMap := two.typeMap.trans one.typeMap

theorem wrote_null (this : PackWrite) : Wrote this [] (pckWriteNull this) :=
  ⟨(List.append_nil _).symm, rfl, fun _ => rfl, rfl, rfl⟩

theorem Tagged.wrote {before after : PackWrite} {bytes : Bytes} {id : Nat}
    (tagged : Tagged before bytes id after) : Wrote before bytes after where
  delivered := tagged.delivered
  write := tagged.write
  direct := tagged.direct
  tagStack := tagged.tagStack
  typeMap := by rw [tagged.tagStackTop]

variable {this : PackWrite} {id next : Nat}

theorem writeData_spec (typeMap : PackTypeMap) (value : Bytes)
    (above : Above this.tagStackTop id next) :
    ∃ after, writeData typeMap this value id = .ok after ∧
      Tagged this (tagBytes typeMap (next - this.tagStackTop.idLast - 1)
        (Field.data next typeMap value).value ++ (Field.data next typeMap value).payload) next after := by
  obtain ⟨tagged, write, adds⟩ :=
    pckWriteTag_spec this typeMap (Field.data next typeMap value).value above
  unfold writeData
  rw [Field.value] at write
  rw [write]
  dsimp only [bind, Except.bind]
  rw [Field.payload]
  cases empty : value.isEmpty with
  | true =>
    rw [if_pos rfl, if_pos rfl, List.append_nil]
    exact ⟨tagged, rfl, adds⟩
  | false =>
    rw [if_neg Bool.false_ne_true, if_neg Bool.false_ne_true]
    exact ⟨_, rfl, adds.adds ((adds_u64 tagged _).trans (adds_buffer _ value))⟩

theorem encode_zero : encode packUInt64SizeMax 0 = [0] := by decide

theorem container_spec (typeMap : PackTypeMap) (above : Above this.tagStackTop id next)
    (body : PackWrite → Except Error PackWrite) (bytes : Bytes)
    (inner : ∀ inside : PackWrite, inside.tagStackTop = { typeMap } →
      ∃ after, body inside = .ok after ∧ Wrote inside bytes after) :
    ∃ inside after ended, writeBegin typeMap this id = .ok inside ∧ body inside = .ok after ∧
      writeEnd typeMap after = .ok ended ∧
      Tagged this (tagBytes typeMap (next - this.tagStackTop.idLast - 1) 0 ++ (bytes ++ [0])) next
        ended := by
  obtain ⟨tagged, write, adds⟩ := pckWriteTag_spec this typeMap 0 above
  obtain ⟨after, writes, wrote⟩ := inner
    { tagged with tagStackTop := { typeMap }, tagStack := tagged.tagStackTop :: tagged.tagStack } rfl
  have isStack : after.tagStack = tagged.tagStackTop :: tagged.tagStack := wrote.tagStack
  have isType : after.tagStackTop.typeMap = typeMap := wrote.typeMap
  have ends := adds_u64 after 0
  rw [encode_zero] at ends
  refine ⟨_, after, { pckWriteU64Internal after 0 with
    tagStackTop := tagged.tagStackTop, tagStack := tagged.tagStack }, ?_, writes, ?_, ?_⟩
  · unfold writeBegin
    rw [write]
    rfl
  · unfold writeEnd
    rw [isStack]
    dsimp only
    rw [if_pos isType]
  · refine ⟨?_, (ends.write.trans wrote.write).trans adds.write, fun none => ?_, adds.tagStack,
      adds.tagStackTop⟩
    · have last : (pckWriteU64Internal after 0).delivered = _ := ends.delivered
      have fields : after.delivered = tagged.delivered ++ bytes := wrote.delivered
      rw [fields, adds.delivered, List.append_assoc, List.append_assoc] at last
      exact last
    · exact ((ends.direct ((wrote.write.trans adds.write).trans none)).trans
        (wrote.direct (adds.write.trans none))).trans (adds.direct none)

/-- A null leaves no bytes. -/
theorem write_null {call : Call} (valid : call.Valid) (isNull : call.field? next = none) :
    call.write this = .ok (pckWriteNull this) := by
  cases call with
  | null => rw [Call.write]
  | scalar type value own defaultWrite defaultValue =>
    rw [Call.field?] at isNull
    split at isNull
    · rename_i isDefault
      rw [Call.write, pckWriteScalar_eq, writeScalar, pckWriteDefaultNull, if_pos isDefault]
    · cases isNull
  | str value own defaultWrite defaultValue =>
    rw [Call.field?] at isNull
    rw [Call.Valid] at valid
    have isDefault : (!defaultWrite && value == defaultValue) = true := by
      split at isNull
      · assumption
      · obtain ⟨rfl, rfl⟩ := valid.1 (Option.map_eq_none_iff.mp isNull)
        rw [Option.map_eq_none_iff.mp isNull]
        rfl
    rw [Call.write]
    unfold pckWriteStr pckWriteDefaultNull
    rw [if_pos isDefault]
  | bin value own =>
    rw [Call.field?, Option.map_eq_none_iff] at isNull
    subst isNull
    rw [Call.write]
    rfl
  | strLst value own =>
    rw [Call.field?, Option.map_eq_none_iff] at isNull
    subst isNull
    rw [Call.write]
    rfl
  | packNull own =>
    rw [Call.write]
    rfl
  | pack calls own =>
    rw [Call.field?] at isNull
    cases isNull
  | array own calls =>
    rw [Call.field?] at isNull
    cases isNull
  | obj own calls =>
    rw [Call.field?] at isNull
    cases isNull

theorem writeStrs_spec (values : List (Option Bytes)) : ∀ {this : PackWrite} {last nulls : Nat},
    this.tagStackTop.idLast = last → this.tagStackTop.nullTotal = nulls →
    last + nulls + values.length < uintMax - 2 →
    ∃ after, writeStrs this values = .ok after ∧
      Wrote this (fieldsBytes last (strFields last nulls values)) after := by
  induction values with
  | nil =>
    intro this last nulls _ _ _
    rw [writeStrs, strFields, fieldsBytes]
    exact ⟨this, rfl, Wrote.refl this⟩
  | cons value rest ih =>
    intro this last nulls isLast isNulls small
    rw [List.length_cons] at small
    cases value with
    | none =>
      have nulled : pckWriteStr this none 0 false none = .ok (pckWriteNull this) := rfl
      have isNulls' : (pckWriteNull this).tagStackTop.nullTotal = nulls + 1 := by
        rw [pckWriteNull, isNulls]
        exact Nat.mod_eq_of_lt (Nat.lt_trans (by omega) (show uintMax - 2 < 2 ^ 32 by decide))
      obtain ⟨after, writes, wrote⟩ := @ih (pckWriteNull this) last (nulls + 1) isLast isNulls'
        (by omega)
      rw [writeStrs, nulled, strFields]
      exact ⟨after, writes, (wrote_null this).trans wrote⟩
    | some bytes =>
      have above : Above this.tagStackTop 0 (last + nulls + 1) := by
        refine ⟨?_, ?_, ?_⟩
        · rw [if_pos rfl, isLast, isNulls]
        · rw [isLast]
          omega
        · exact Nat.lt_trans (by omega) (show uintMax - 2 < 2 ^ 32 by decide)
      obtain ⟨between, write, tagged⟩ := writeData_spec .str bytes above
      have isStr : pckWriteStr this (some bytes) 0 false none = .ok between := write
      obtain ⟨after, writes, wrote⟩ := @ih between (last + nulls + 1) 0
        (by rw [tagged.tagStackTop]) (by rw [tagged.tagStackTop]) (by omega)
      rw [writeStrs, isStr, strFields, fieldsBytes]
      refine ⟨after, writes, ?_⟩
      have both := tagged.wrote.trans wrote
      rw [isLast, List.append_assoc] at both
      exact both

theorem pckWriteEnd_buffer {ended : PackWrite} {bytes : Bytes}
    (wrote : Wrote (pckWriteNewBuf []) bytes ended) : (pckWriteEnd ended).buffer = bytes ++ [0] := by
  have isDirect : ended.write = none := wrote.write
  have ends := adds_u64 ended 0
  have isWritten : (pckWriteU64Internal ended 0).written = [] :=
    (ends.direct isDirect).trans (wrote.direct rfl)
  have all : (pckWriteU64Internal ended 0).delivered = bytes ++ [0] := by
    rw [ends.delivered, wrote.delivered, encode_zero]
    rfl
  have same : pckWriteEnd ended = pckWriteU64Internal ended 0 := by
    unfold pckWriteEnd
    dsimp only
    rw [ends.write, isDirect]
  rw [same, ← all, PackWrite.delivered, isWritten, List.nil_append]

mutual

theorem write_call : ∀ (call : Call) ⦃this : PackWrite⦄ ⦃next : Nat⦄ ⦃field : Field⦄,
    call.Valid → call.field? next = some field → Above this.tagStackTop call.id next →
    ∃ after, call.write this = .ok after ∧
      Tagged this (tagBytes field.typeMap (next - this.tagStackTop.idLast - 1) field.value ++
        field.payload) next after
  | .null => by
    intro this next field _ isField _
    rw [Call.field?] at isField
    cases isField
  | .scalar type value id defaultWrite defaultValue => by
    intro this next field _ isField above
    rw [Call.field?] at isField
    split at isField
    · cases isField
    · rename_i notDefault
      cases isField
      obtain ⟨after, write, tagged⟩ :=
        pckWriteTag_spec this type.scalar.typeMap (type.scalar.toNat value) above
      refine ⟨after, ?_, ?_⟩
      · rw [Call.write, pckWriteScalar_eq, writeScalar, pckWriteDefaultNull, if_neg notDefault]
        exact write
      · rw [Field.payload, List.append_nil]
        exact tagged
  | .str value id defaultWrite defaultValue => by
    intro this next field _ isField above
    rw [Call.field?] at isField
    split at isField
    · cases isField
    · rename_i notDefault
      obtain ⟨bytes, rfl, rfl⟩ := Option.map_eq_some_iff.mp isField
      obtain ⟨after, write, tagged⟩ := writeData_spec .str bytes above
      refine ⟨after, ?_, tagged⟩
      rw [Call.write, pckWriteStr, pckWriteDefaultNull, if_neg notDefault]
      exact write
  | .bin value id => by
    intro this next field _ isField above
    rw [Call.field?] at isField
    obtain ⟨bytes, rfl, rfl⟩ := Option.map_eq_some_iff.mp isField
    obtain ⟨after, write, tagged⟩ := writeData_spec .bin bytes above
    refine ⟨after, ?_, tagged⟩
    rw [Call.write]
    exact write
  | .strLst value id => by
    intro this next field valid isField above
    rw [Call.field?] at isField
    obtain ⟨values, rfl, rfl⟩ := Option.map_eq_some_iff.mp isField
    rw [Call.Valid] at valid
    have small := (valid values rfl).1
    obtain ⟨inside, after, ended, begins, writes, ends, tagged⟩ := container_spec .array above
      (fun this => writeStrs this values) _ fun inside isTop =>
        @writeStrs_spec values inside 0 0 (by rw [isTop]) (by rw [isTop]) (by omega)
    refine ⟨ended, ?_, ?_⟩
    · rw [Call.write]
      unfold pckWriteStrLst pckWriteDefaultNull pckWriteArrayBegin pckWriteArrayEnd
      rw [Call.id] at begins
      dsimp only
      rw [if_neg (by simp), begins]
      dsimp only [bind, Except.bind]
      rw [writes]
      exact ends
    · rw [Field.payload]
      exact tagged
  | .packNull id => by
    intro this next field _ isField _
    rw [Call.field?] at isField
    cases isField
  | .pack calls id => by
    intro this next field valid isField above
    rw [Call.field?] at isField
    cases isField
    rw [Call.Valid] at valid
    obtain ⟨inner, writes, wrote⟩ := @write_calls calls (pckWriteNewBuf []) 0 0 valid.1 rfl rfl
    obtain ⟨tagged, write, adds⟩ := pckWriteTag_spec this .pack 0 above
    have isBuffer := pckWriteEnd_buffer wrote
    refine ⟨pckWriteBuffer (pckWriteU64Internal tagged (pckWriteEnd inner).buffer.length)
      (pckWriteEnd inner).buffer, ?_, ?_⟩
    · rw [Call.write, writes]
      unfold pckWritePack pckWriteDefaultNull
      rw [Call.id] at write
      dsimp only [bind, Except.bind]
      rw [if_neg (by simp), write]
    · rw [Field.payload, ← isBuffer]
      exact adds.adds ((adds_u64 tagged _).trans (adds_buffer _ _))
  | .array id calls => by
    intro this next field valid isField above
    rw [Call.field?] at isField
    cases isField
    rw [Call.Valid] at valid
    obtain ⟨inside, after, ended, begins, writes, ends, tagged⟩ := container_spec .array above
      (writeCalls calls) _ fun inside isTop =>
        @write_calls calls inside 0 0 valid (by rw [isTop]) (by rw [isTop])
    refine ⟨ended, ?_, ?_⟩
    · rw [Call.write]
      unfold pckWriteArrayBegin pckWriteArrayEnd
      rw [Call.id] at begins
      rw [begins]
      dsimp only [bind, Except.bind]
      rw [writes]
      exact ends
    · rw [Field.payload]
      exact tagged
  | .obj id calls => by
    intro this next field valid isField above
    rw [Call.field?] at isField
    cases isField
    rw [Call.Valid] at valid
    obtain ⟨inside, after, ended, begins, writes, ends, tagged⟩ := container_spec .obj above
      (writeCalls calls) _ fun inside isTop =>
        @write_calls calls inside 0 0 valid (by rw [isTop]) (by rw [isTop])
    refine ⟨ended, ?_, ?_⟩
    · rw [Call.write]
      unfold pckWriteObjBegin pckWriteObjEnd
      rw [Call.id] at begins
      rw [begins]
      dsimp only [bind, Except.bind]
      rw [writes]
      exact ends
    · rw [Field.payload]
      exact tagged

theorem write_calls : ∀ (calls : List Call) ⦃this : PackWrite⦄ ⦃last nulls : Nat⦄,
    ValidCalls last nulls calls → this.tagStackTop.idLast = last →
    this.tagStackTop.nullTotal = nulls →
    ∃ after, writeCalls calls this = .ok after ∧
      Wrote this (fieldsBytes last (fieldsOf last nulls calls)) after
  | [] => by
    intro this last nulls _ _ _
    rw [writeCalls, fieldsOf, fieldsBytes]
    exact ⟨this, rfl, Wrote.refl this⟩
  | call :: rest => by
    intro this last nulls valid isLast isNulls
    rw [ValidCalls] at valid
    obtain ⟨own, others⟩ := valid
    rw [writeCalls, fieldsOf]
    cases isField : call.field? (call.nextId last nulls) with
    | none =>
      rw [isField] at others
      have isNulls' : (pckWriteNull this).tagStackTop.nullTotal = nulls + 1 := by
        rw [pckWriteNull, isNulls]
        exact Nat.mod_eq_of_lt (Nat.lt_trans (by omega) (show uintMax - 2 < 2 ^ 32 by decide))
      obtain ⟨after, writes, wrote⟩ := @write_calls rest (pckWriteNull this) last (nulls + 1) others.2 isLast isNulls'
      rw [write_null own isField]
      exact ⟨after, writes, (wrote_null this).trans wrote⟩
    | some field =>
      rw [isField] at others
      have above : Above this.tagStackTop call.id (call.nextId last nulls) := by
        refine ⟨?_, ?_, ?_⟩
        · rw [Call.nextId, isLast, isNulls]
        · rw [isLast]
          exact others.1.1
        · exact Nat.lt_trans others.1.2 (by decide)
      obtain ⟨between, write, tagged⟩ := write_call call own isField above
      obtain ⟨after, writes, wrote⟩ := @write_calls rest between (call.nextId last nulls) 0 others.2
        (by rw [tagged.tagStackTop]) (by rw [tagged.tagStackTop])
      rw [write, fieldsBytes, field?_id isField]
      refine ⟨after, writes, ?_⟩
      have both := tagged.wrote.trans wrote
      rw [isLast, List.append_assoc] at both
      exact both

end

end Write

section Valid

theorem strFields_valid (values : List (Option Bytes)) : ∀ (last nulls : Nat),
    last + nulls + values.length < uintMax - 2 →
    (∀ item ∈ values, ∀ bytes ∈ item, bytes.length < 2 ^ 64) →
    ValidFrom last (strFields last nulls values) := by
  induction values with
  | nil =>
    intro last nulls _ _
    rw [strFields, ValidFrom]
    exact trivial
  | cons value rest ih =>
    intro last nulls small sizes
    rw [List.length_cons] at small
    have others := fun item mem => sizes item (List.mem_cons_of_mem value mem)
    cases value with
    | none =>
      rw [strFields]
      have valid := ih last (nulls + 1) (by omega) others
      exact valid
    | some bytes =>
      rw [strFields, ValidFrom, Field.Valid, Field.id]
      exact ⟨by omega, ⟨Or.inl rfl, sizes _ List.mem_cons_self bytes rfl⟩, ih _ 0 (by omega) others⟩

theorem ScalarType.scalar_fits (type : ScalarType) (value : type.Carrier) :
    Fits type.scalar.typeMap (type.scalar.toNat value) := by
  have known : type.scalar.typeMap ≠ .unknown := by
    cases type <;> exact PackTypeMap.noConfusion
  refine ⟨known, type.scalar.fits value, ?_⟩
  rcases type.scalar.bits with multi | ⟨single, -, small⟩
  · exact Or.inl multi
  · exact Or.inr (Or.inl ⟨single, small value⟩)

mutual

theorem field?_valid : ∀ (call : Call) ⦃next : Nat⦄ ⦃field : Field⦄, call.Valid →
    call.field? next = some field → field.Valid
  | .null => by
    intro next field _ isField
    rw [Call.field?] at isField
    cases isField
  | .scalar type value id defaultWrite defaultValue => by
    intro next field _ isField
    rw [Call.field?] at isField
    split at isField
    · cases isField
    · cases isField
      rw [Field.Valid]
      exact ⟨type.scalar_fits value, type.scalar.noSize⟩
  | .str value id defaultWrite defaultValue => by
    intro next field valid isField
    rw [Call.Valid] at valid
    rw [Call.field?] at isField
    split at isField
    · cases isField
    · obtain ⟨bytes, isValue, rfl⟩ := Option.map_eq_some_iff.mp isField
      rw [Field.Valid]
      exact ⟨Or.inl rfl, valid.2 bytes isValue⟩
  | .bin value id => by
    intro next field valid isField
    rw [Call.Valid] at valid
    rw [Call.field?] at isField
    obtain ⟨bytes, isValue, rfl⟩ := Option.map_eq_some_iff.mp isField
    rw [Field.Valid]
    exact ⟨Or.inr rfl, valid bytes isValue⟩
  | .strLst value id => by
    intro next field valid isField
    rw [Call.Valid] at valid
    rw [Call.field?] at isField
    obtain ⟨values, isValue, rfl⟩ := Option.map_eq_some_iff.mp isField
    rw [Field.Valid]
    obtain ⟨small, sizes⟩ := valid values isValue
    exact ⟨Or.inl rfl, strFields_valid values 0 0 (by omega) sizes⟩
  | .packNull id => by
    intro next field _ isField
    rw [Call.field?] at isField
    cases isField
  | .pack calls id => by
    intro next field valid isField
    rw [Call.Valid] at valid
    rw [Call.field?] at isField
    cases isField
    rw [Field.Valid]
    exact ⟨fieldsOf_valid calls valid.1, valid.2⟩
  | .array id calls => by
    intro next field valid isField
    rw [Call.Valid] at valid
    rw [Call.field?] at isField
    cases isField
    rw [Field.Valid]
    exact ⟨Or.inl rfl, fieldsOf_valid calls valid⟩
  | .obj id calls => by
    intro next field valid isField
    rw [Call.Valid] at valid
    rw [Call.field?] at isField
    cases isField
    rw [Field.Valid]
    exact ⟨Or.inr rfl, fieldsOf_valid calls valid⟩

theorem fieldsOf_valid : ∀ (calls : List Call) ⦃last nulls : Nat⦄, ValidCalls last nulls calls →
    ValidFrom last (fieldsOf last nulls calls)
  | [] => by
    intro last nulls _
    rw [fieldsOf, ValidFrom]
    exact trivial
  | call :: rest => by
    intro last nulls valid
    rw [ValidCalls] at valid
    obtain ⟨own, others⟩ := valid
    rw [fieldsOf]
    cases isField : call.field? (call.nextId last nulls) with
    | none =>
      rw [isField] at others
      exact fieldsOf_valid rest others.2
    | some field =>
      rw [isField] at others
      dsimp only
      rw [ValidFrom, field?_id isField]
      exact ⟨others.1, field?_valid call own isField, fieldsOf_valid rest others.2⟩

end

end Valid

end Pack
