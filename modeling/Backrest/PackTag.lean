import Backrest.PackRead

/-!
# What is written is read

The tag of a field and its data are read back as they were written, whatever
follows them and whether the bytes come from a buffer or from io.
-/

namespace Pack

open Text StringId Base128

section Deliver

/-- Everything the writer was given so far, in order. -/
def PackWrite.delivered (this : PackWrite) : Bytes := this.written ++ this.buffer

/-- The same writer after some more bytes. -/
structure Adds (before : PackWrite) (bytes : Bytes) (after : PackWrite) : Prop where
  delivered : after.delivered = before.delivered ++ bytes
  write : after.write = before.write
  direct : before.write = none → after.written = before.written
  tagStackTop : after.tagStackTop = before.tagStackTop
  tagStack : after.tagStack = before.tagStack

theorem Adds.trans {first second third : PackWrite} {a b : Bytes} (one : Adds first a second)
    (two : Adds second b third) : Adds first (a ++ b) third where
  delivered := by rw [two.delivered, one.delivered, List.append_assoc]
  write := two.write.trans one.write
  direct none := (two.direct (one.write.trans none)).trans (one.direct none)
  tagStackTop := two.tagStackTop.trans one.tagStackTop
  tagStack := two.tagStack.trans one.tagStack

theorem Adds.refl (this : PackWrite) : Adds this [] this :=
  ⟨(List.append_nil _).symm, rfl, fun _ => rfl, rfl, rfl⟩

theorem adds_buffer (this : PackWrite) (bytes : Bytes) :
    Adds this bytes (pckWriteBuffer this bytes) := by
  unfold pckWriteBuffer
  cases write : this.write with
  | none =>
    refine ⟨?_, write.symm, fun _ => rfl, rfl, rfl⟩
    simp only [PackWrite.delivered, List.append_assoc]
  | some size =>
    have io : ∀ written, this.write = none → written = this.written := by
      intro written none
      rw [write] at none
      cases none
    dsimp only
    by_cases room : size - this.buffer.length ≥ bytes.length
    · rw [if_pos room]
      refine ⟨?_, write.symm, io _, rfl, rfl⟩
      simp only [PackWrite.delivered, List.append_assoc]
    · rw [if_neg room]
      by_cases fits : size ≥ bytes.length
      · rw [if_pos fits]
        exact ⟨rfl, write.symm, io _, rfl, rfl⟩
      · rw [if_neg fits]
        refine ⟨?_, write.symm, io _, rfl, rfl⟩
        simp only [PackWrite.delivered, List.append_nil]

theorem adds_u64 (this : PackWrite) (value : Nat) :
    Adds this (encode packUInt64SizeMax value) (pckWriteU64Internal this value) :=
  adds_buffer this _

/-- A number that is written only where it is not zero. -/
def some64 (value : Nat) : Bytes := if value > 0 then encode packUInt64SizeMax value else []

theorem adds_some64 (this : PackWrite) (value : Nat) :
    Adds this (some64 value) (if value > 0 then pckWriteU64Internal this value else this) := by
  unfold some64
  split
  · exact adds_u64 this value
  · exact Adds.refl this

def typeBytes (typeMap : PackTypeMap) : Bytes :=
  if typeMap.value ≥ 0xf then encode packUInt64SizeMax (typeMap.value - 0xf) else []

theorem adds_type (this : PackWrite) (typeMap : PackTypeMap) :
    Adds this (typeBytes typeMap) (if typeMap.value ≥ 0xf
      then pckWriteU64Internal this (typeMap.value - 0xf) else this) := by
  unfold typeBytes
  split
  · exact adds_u64 this _
  · exact Adds.refl this

def tagBytes (typeMap : PackTypeMap) (tagId value : Nat) : Bytes :=
  let (tag, tagId, value) := tagParts typeMap tagId value
  [UInt8.ofNat tag] ++ typeBytes typeMap ++ some64 tagId ++ some64 value

theorem adds_parts (this : PackWrite) (typeMap : PackTypeMap) (tag tagId value : Nat) :
    Adds this ([UInt8.ofNat tag] ++ typeBytes typeMap ++ some64 tagId ++ some64 value)
      (writeParts this typeMap tag tagId value) :=
  (((adds_buffer this _).trans (adds_type _ typeMap)).trans (adds_some64 _ _)).trans
    (adds_some64 _ _)

structure Above (top : PackTagStack) (id next : Nat) : Prop where
  isNext : next = if id = 0 then top.idLast + top.nullTotal + 1 else id
  last : top.idLast < next
  range : next < 2 ^ 32

/-- The same writer after one more field. -/
structure Tagged (before : PackWrite) (bytes : Bytes) (id : Nat) (after : PackWrite) : Prop where
  delivered : after.delivered = before.delivered ++ bytes
  write : after.write = before.write
  direct : before.write = none → after.written = before.written
  tagStack : after.tagStack = before.tagStack
  tagStackTop : after.tagStackTop = { before.tagStackTop with idLast := id, nullTotal := 0 }

theorem Tagged.adds {before between after : PackWrite} {a b : Bytes} {id : Nat}
    (tagged : Tagged before a id between) (adds : Adds between b after) :
    Tagged before (a ++ b) id after where
  delivered := by rw [adds.delivered, tagged.delivered, List.append_assoc]
  write := adds.write.trans tagged.write
  direct none := (adds.direct (tagged.write.trans none)).trans (tagged.direct none)
  tagStack := adds.tagStack.trans tagged.tagStack
  tagStackTop := adds.tagStackTop.trans tagged.tagStackTop

theorem Above.nextId_eq {top : PackTagStack} {id next : Nat} (above : Above top id next) :
    nextId top id = next := by
  obtain ⟨isNext, -, range⟩ := above
  unfold nextId
  split
  · rename_i auto
    rw [if_pos auto] at isNext
    rw [isNext] at range ⊢
    exact Nat.mod_eq_of_lt range
  · rename_i own
    rw [isNext, if_neg own]

theorem pckWriteTag_spec (this : PackWrite) (typeMap : PackTypeMap) {id next : Nat} (value : Nat)
    (above : Above this.tagStackTop id next) :
    ∃ after, pckWriteTag this typeMap id value = .ok after ∧
      Tagged this (tagBytes typeMap (next - this.tagStackTop.idLast - 1) value) next after := by
  have same := above.nextId_eq
  obtain ⟨isNext, last, range⟩ := above
  have passes : ¬(id ≠ 0 ∧ ¬id > this.tagStackTop.idLast) := by
    rintro ⟨own, low⟩
    rw [if_neg own] at isNext
    omega
  have distance : (next + 2 ^ 32 - this.tagStackTop.idLast - 1) % 2 ^ 32
      = next - this.tagStackTop.idLast - 1 := by
    omega
  have adds := adds_parts this typeMap (tagParts typeMap (next - this.tagStackTop.idLast - 1) value).1
    (tagParts typeMap (next - this.tagStackTop.idLast - 1) value).2.1
    (tagParts typeMap (next - this.tagStackTop.idLast - 1) value).2.2
  unfold pckWriteTag
  dsimp only
  rw [if_neg passes, same, distance]
  exact ⟨_, rfl, adds.delivered, adds.write, adds.direct, adds.tagStack, rfl⟩

end Deliver

section Source

/-- The same reader with other bytes before it. -/
def PackRead.at (this : PackRead) (rest : Bytes) : PackRead := { this with rest }

/-- The io buffer is not empty. -/
def PackRead.Ready (this : PackRead) : Prop := this.read ≠ some 0

variable {this : PackRead} {after : Bytes}

section Read
variable (ready : this.Ready)
include ready

theorem nextByte_at (byte : UInt8) :
    nextByte (this.at (byte :: after)) = .ok (byte, this.at after) := by
  have enough : pckReadBuffer (this.at (byte :: after)) 1 = .ok 1 := by
    unfold pckReadBuffer PackRead.at
    dsimp only
    cases read : this.read with
    | none =>
      dsimp only
      rw [if_neg]
      rw [List.length_cons]
      omega
    | some size =>
      have positive : size ≠ 0 := fun zero => ready (by rw [read, zero])
      dsimp only
      rw [if_neg]
      rw [List.length_cons]
      omega
  unfold nextByte
  rw [enough]
  rfl

theorem gives_at (bytes : Bytes) :
    Gives nextByte bytes (this.at (bytes ++ after)) (this.at after) := by
  induction bytes with
  | nil => rfl
  | cons byte bytes ih => exact ⟨_, nextByte_at ready byte, ih⟩

theorem pckReadU64Internal_at {value : Nat} (fits : value < 2 ^ 64) :
    pckReadU64Internal (this.at (encode packUInt64SizeMax value ++ after))
      = .ok (value, this.at after) :=
  decode_encode fits (gives_at ready _)

/-- Each chunk has a byte at least and no more than what is missing. -/
theorem pckReadBuffer_at (after : Bytes) {size : Nat} (some' : size ≠ 0)
    (enough : size ≤ after.length) :
    ∃ sizeRead, pckReadBuffer (this.at after) size = .ok sizeRead ∧ 0 < sizeRead ∧
      sizeRead ≤ size := by
  unfold pckReadBuffer PackRead.at
  dsimp only
  cases read : this.read with
  | none =>
    refine ⟨size, ?_, by omega, le_rfl⟩
    dsimp only
    rw [if_neg (by omega)]
  | some alloc =>
    have positive : alloc ≠ 0 := fun zero => ready (by rw [read, zero])
    dsimp only
    by_cases short : min (min size alloc) after.length < size
    · rw [if_pos short, if_neg (by omega)]
      exact ⟨_, rfl, by omega, by omega⟩
    · rw [if_neg short]
      exact ⟨size, rfl, by omega, le_rfl⟩

theorem readChunks_at (bytes : Bytes) {fuel : Nat} (enough : bytes.length ≤ fuel) :
    readChunks fuel bytes.length (this.at (bytes ++ after)) = .ok (bytes, this.at after) := by
  induction fuel generalizing bytes with
  | zero =>
    rw [List.length_eq_zero_iff.mp (Nat.le_zero.mp enough)]
    rfl
  | succ fuel ih =>
    rw [readChunks]
    by_cases none : bytes.length = 0
    · rw [if_pos none, List.length_eq_zero_iff.mp none]
      rfl
    · obtain ⟨sizeRead, read, positive, bound⟩ := pckReadBuffer_at ready (bytes ++ after) none
        (by rw [List.length_append]; omega)
      have left : (bytes ++ after).drop sizeRead = bytes.drop sizeRead ++ after :=
        List.drop_append_of_le_length bound
      have taken : (bytes ++ after).take sizeRead = bytes.take sizeRead :=
        List.take_append_of_le_length bound
      have next := ih (bytes.drop sizeRead) (by rw [List.length_drop]; omega)
      rw [List.length_drop] at next
      have step : ({ this.at (bytes ++ after) with
          rest := (this.at (bytes ++ after)).rest.drop sizeRead } : PackRead)
          = this.at (bytes.drop sizeRead ++ after) := by
        rw [← left]
        rfl
      rw [if_neg none, read]
      dsimp only [bind, Except.bind]
      rw [step, next]
      dsimp only
      have front : (this.at (bytes ++ after)).rest.take sizeRead = bytes.take sizeRead := taken
      rw [front, List.take_append_drop]

theorem readData_at {bytes : Bytes} (after : Bytes) (fits : bytes.length < 2 ^ 64) :
    readData (this.at (encode packUInt64SizeMax bytes.length ++ (bytes ++ after)))
      = .ok (bytes, this.at after) := by
  unfold readData
  rw [pckReadU64Internal_at ready fits]
  exact readChunks_at ready bytes le_rfl

end Read

end Source

section Tag
variable {this : PackRead} {after : Bytes}

theorem ofCode_value {typeMap : PackTypeMap} (known : typeMap ≠ .unknown) :
    PackTypeMap.ofCode typeMap.value = .ok typeMap := by
  cases typeMap with
  | unknown => exact absurd rfl known
  | _ => rfl

/-- The value fits the type: one bit where the tag has one, none for a container. -/
def Fits (typeMap : PackTypeMap) (value : Nat) : Prop :=
  typeMap ≠ .unknown ∧ value < 2 ^ 64 ∧ ((packTypeMapData typeMap).valueMultiBit = true ∨
    (packTypeMapData typeMap).valueSingleBit = true ∧ value < 2 ∨ value = 0)

theorem bit_iff (n i : Nat) : n &&& 2 ^ i ≠ 0 ↔ n / 2 ^ i % 2 = 1 := by
  rw [Nat.and_two_pow, Nat.testBit_eq_decide_div_mod_eq]
  by_cases bit : n / 2 ^ i % 2 = 1
  · simp [bit]
  · simp [bit]

theorem low_bits (n i : Nat) : n &&& (2 ^ i - 1) = n % 2 ^ i := Nat.and_two_pow_sub_one_eq_mod n i

theorem or_high {low shift : Nat} (high : Nat) (small : low < 2 ^ shift) :
    low ||| high <<< shift = low + high * 2 ^ shift := by
  rw [Nat.shiftLeft_eq, Nat.or_comm, Nat.mul_comm, ← Nat.two_pow_add_eq_or_of_lt small, Nat.add_comm]

/-- The high bits of the id distance are read where they were written. -/
theorem readTagId_at (ready : this.Ready) {low high shift : Nat} (small : low < 2 ^ shift)
    (fits : low + high * 2 ^ shift < 2 ^ 32) :
    readTagId (this.at (some64 high ++ after)) low (decide (high > 0)) shift
      = .ok (low + high * 2 ^ shift, this.at after) := by
  have bound : high * 2 ^ shift < 2 ^ 32 := by omega
  have less : high ≤ high * 2 ^ shift := Nat.le_mul_of_pos_right high (Nat.two_pow_pos shift)
  unfold readTagId some64
  by_cases more : high > 0
  · rw [if_pos more, decide_eq_true more, if_pos rfl, pckReadU64Internal_at ready (by omega)]
    dsimp only [bind, Except.bind]
    rw [Nat.mod_eq_of_lt (by omega : high < 2 ^ 32), Nat.shiftLeft_eq, Nat.mod_eq_of_lt bound,
      ← Nat.shiftLeft_eq, or_high high small, Nat.shiftLeft_eq]
  · have zero : high = 0 := by omega
    subst zero
    simp

/-- The high bits of the tag byte. -/
def typeBits (typeMap : PackTypeMap) : Nat := min typeMap.value 0xf

theorem typeBits_pos {typeMap : PackTypeMap} (known : typeMap ≠ .unknown) :
    0 < typeBits typeMap ∧ typeBits typeMap < 16 := by
  cases typeMap with
  | unknown => exact absurd rfl known
  | _ => decide

theorem typeBits_eq (typeMap : PackTypeMap) :
    (if typeMap.value ≥ 0xf then 0xf0 else typeMap.value <<< 4) = typeBits typeMap <<< 4 := by
  cases typeMap <;> rfl

theorem readTypeMap_at (ready : this.Ready) {typeMap : PackTypeMap} (known : typeMap ≠ .unknown)
    {tag : Nat} (isTag : tag / 16 = typeBits typeMap) :
    readTypeMap (this.at (typeBytes typeMap ++ after)) tag = .ok (typeMap, this.at after) := by
  have code := ofCode_value known
  have small : typeMap.value < 2 ^ 32 := by cases typeMap <;> decide
  unfold readTypeMap typeBytes
  rw [Nat.shiftRight_eq_div_pow, show 2 ^ 4 = 16 from rfl, isTag]
  unfold typeBits
  by_cases extra : typeMap.value ≥ 0xf
  · rw [if_pos extra, if_pos (by omega), pckReadU64Internal_at ready (by omega)]
    dsimp only [bind, Except.bind]
    rw [Nat.mod_eq_of_lt (by omega : typeMap.value - 15 < 2 ^ 32),
      show (typeMap.value - 15 + 15) % 2 ^ 32 = typeMap.value by omega, code]
  · rw [if_neg extra, if_neg (by omega), show min typeMap.value 15 = typeMap.value by omega, code]
    rfl

/-- What the tag byte says, by the kind of the type. -/
theorem multi_in_tag : ∀ (t : Fin 16) (v d : Fin 2) (m : Bool),
    (if m then t.val <<< 4 ||| (v.val &&& 1) <<< 2 ||| d ||| 2 else t.val <<< 4 ||| (v.val &&& 1) <<< 2 ||| d)
      = 16 * t + 4 * v + 2 * m.toNat + d := by
  decide +kernel

theorem multi_behind : ∀ (t : Fin 16) (d : Fin 4) (m : Bool),
    (if m then t.val <<< 4 ||| 8 ||| d ||| 4 else t.val <<< 4 ||| 8 ||| d)
      = 16 * t + 8 + 4 * m.toNat + d := by
  decide +kernel

theorem single_in_tag : ∀ (t : Fin 16) (v : Fin 2) (d : Fin 4) (m : Bool),
    (if m then t.val <<< 4 ||| (v.val &&& 1) <<< 3 ||| d ||| 4 else t.val <<< 4 ||| (v.val &&& 1) <<< 3 ||| d)
      = 16 * t + 8 * v + 4 * m.toNat + d := by
  decide +kernel

theorem container_tag : ∀ (t : Fin 16) (d : Fin 8) (m : Bool),
    (if m then t.val <<< 4 ||| d ||| 8 else t.val <<< 4 ||| d) = 16 * t + 8 * m.toNat + d := by
  decide +kernel

variable {typeMap : PackTypeMap} {tagId value : Nat}

/-- The id distance comes back when the tag has its low bits and says whether there are others. -/
theorem readTagId_tag (ready : this.Ready) (tag shift bit : Nat)
    (low : tag % 2 ^ shift = tagId % 2 ^ shift)
    (flag : tag / 2 ^ bit % 2 = (decide (tagId >>> shift > 0)).toNat) (range : tagId < 2 ^ 32) :
    readTagId (this.at (some64 (tagId >>> shift) ++ after)) (tag &&& (2 ^ shift - 1))
      (tag &&& 2 ^ bit != 0) shift = .ok (tagId, this.at after) := by
  have more : (tag &&& 2 ^ bit != 0) = decide (tagId >>> shift > 0) := by
    have isBit := bit_iff tag bit
    cases high : decide (tagId >>> shift > 0) with
    | true =>
      rw [high] at flag
      exact bne_iff_ne.mpr (isBit.mpr flag)
    | false =>
      rw [high] at flag
      have zero : tag &&& 2 ^ bit = 0 := by
        by_contra nonzero
        rw [isBit.mp nonzero] at flag
        cases flag
      rw [zero]
      rfl
  have whole : tagId % 2 ^ shift + (tagId >>> shift) * 2 ^ shift = tagId := by
    rw [Nat.shiftRight_eq_div_pow, Nat.mul_comm]
    exact Nat.mod_add_div tagId (2 ^ shift)
  rw [more, low_bits, low, readTagId_at ready (Nat.mod_lt _ (Nat.two_pow_pos _))
    (by rw [whole]; exact range), whole]

structure Readable (typeMap : PackTypeMap) (tagId value : Nat) (parts : Nat × Nat × Nat) : Prop where
  byte : parts.1 < 256
  type : parts.1 / 16 = typeBits typeMap
  reads : ∀ {this : PackRead} {after : Bytes}, this.Ready →
    readTagValue (this.at (some64 parts.2.1 ++ (some64 parts.2.2 ++ after))) typeMap parts.1
      = .ok (tagId, value, this.at after)

theorem readable_multi_in (multi : (packTypeMapData typeMap).valueMultiBit = true)
    (known : typeMap ≠ .unknown) (range : tagId < 2 ^ 32) (small : value < 2) :
    Readable typeMap tagId value (tagParts typeMap tagId value) := by
  obtain ⟨-, bits⟩ := typeBits_pos known
  have tag := multi_in_tag ⟨typeBits typeMap, bits⟩ ⟨value, small⟩ ⟨tagId % 2, by omega⟩
    (decide (tagId >>> 1 > 0))
  simp only [decide_eq_true_eq] at tag
  have parts : tagParts typeMap tagId value = (16 * typeBits typeMap + 4 * value
      + 2 * (decide (tagId >>> 1 > 0)).toNat + tagId % 2, tagId >>> 1, 0) := by
    have low : tagId &&& 1 = tagId % 2 := low_bits tagId 1
    have none : value >>> 1 = 0 := by
      rw [Nat.shiftRight_eq_div_pow]
      omega
    unfold tagParts
    rw [if_pos multi, if_pos small, typeBits_eq, low, none, ← tag]
  have flag := Bool.toNat_le (decide (tagId >>> 1 > 0))
  rw [parts]
  refine ⟨?_, ?_, fun {this after} ready => ?_⟩
  · dsimp only
    omega
  · dsimp only
    omega
  · dsimp only
    generalize isTag : 16 * typeBits typeMap + 4 * value + 2 * (decide (tagId >>> 1 > 0)).toNat
      + tagId % 2 = n
    have inTag : n &&& 0x8 = 0 := by
      by_contra nonzero
      have := (bit_iff n 3).mp nonzero
      omega
    have isValue : n >>> 2 &&& 0x3 = value := by
      refine (low_bits (n >>> 2) 2).trans ?_
      rw [Nat.shiftRight_eq_div_pow]
      omega
    have reads : readTagId (this.at (some64 (tagId >>> 1) ++ (some64 0 ++ after))) (n &&& 0x1)
        (n &&& 0x2 != 0) 1 = .ok (tagId, this.at after) :=
      readTagId_tag ready n 1 1 (by omega) (by omega) range
    unfold readTagValue
    rw [if_pos multi, if_neg (not_not.mpr inTag), reads, isValue]
    rfl

theorem readable_multi_behind (multi : (packTypeMapData typeMap).valueMultiBit = true)
    (known : typeMap ≠ .unknown) (range : tagId < 2 ^ 32) (fits : value < 2 ^ 64)
    (large : ¬value < 2) : Readable typeMap tagId value (tagParts typeMap tagId value) := by
  obtain ⟨-, bits⟩ := typeBits_pos known
  have tag := multi_behind ⟨typeBits typeMap, bits⟩ ⟨tagId % 4, by omega⟩
    (decide (tagId >>> 2 > 0))
  simp only [decide_eq_true_eq] at tag
  have parts : tagParts typeMap tagId value = (16 * typeBits typeMap + 8
      + 4 * (decide (tagId >>> 2 > 0)).toNat + tagId % 4, tagId >>> 2, value) := by
    have low : tagId &&& 3 = tagId % 4 := low_bits tagId 2
    unfold tagParts
    rw [if_pos multi, if_neg large, typeBits_eq, low, ← tag]
  have flag := Bool.toNat_le (decide (tagId >>> 2 > 0))
  rw [parts]
  refine ⟨?_, ?_, fun {this after} ready => ?_⟩
  · dsimp only
    omega
  · dsimp only
    omega
  · dsimp only
    generalize isTag : 16 * typeBits typeMap + 8 + 4 * (decide (tagId >>> 2 > 0)).toNat
      + tagId % 4 = n
    have behind : n &&& 0x8 ≠ 0 := (bit_iff n 3).mpr (by omega)
    have reads : readTagId (this.at (some64 (tagId >>> 2) ++ (some64 value ++ after))) (n &&& 0x3)
        (n &&& 0x4 != 0) 2 = .ok (tagId, this.at (some64 value ++ after)) :=
      readTagId_tag ready n 2 2 (by omega) (by omega) range
    have isValue : pckReadU64Internal (this.at (some64 value ++ after)) = .ok (value, this.at after) := by
      rw [some64, if_pos (by omega), pckReadU64Internal_at ready fits]
    unfold readTagValue
    rw [if_pos multi, if_pos behind, reads]
    dsimp only [bind, Except.bind]
    rw [isValue]

theorem readable_single (multi : (packTypeMapData typeMap).valueMultiBit = false)
    (single : (packTypeMapData typeMap).valueSingleBit = true) (known : typeMap ≠ .unknown)
    (range : tagId < 2 ^ 32) (small : value < 2) :
    Readable typeMap tagId value (tagParts typeMap tagId value) := by
  obtain ⟨-, bits⟩ := typeBits_pos known
  have tag := single_in_tag ⟨typeBits typeMap, bits⟩ ⟨value, small⟩ ⟨tagId % 4, by omega⟩
    (decide (tagId >>> 2 > 0))
  simp only [decide_eq_true_eq] at tag
  have parts : tagParts typeMap tagId value = (16 * typeBits typeMap + 8 * value
      + 4 * (decide (tagId >>> 2 > 0)).toNat + tagId % 4, tagId >>> 2, 0) := by
    have low : tagId &&& 3 = tagId % 4 := low_bits tagId 2
    have none : value >>> 1 = 0 := by
      rw [Nat.shiftRight_eq_div_pow]
      omega
    unfold tagParts
    rw [multi, if_neg Bool.false_ne_true, if_pos single, typeBits_eq, low, none, ← tag]
  have flag := Bool.toNat_le (decide (tagId >>> 2 > 0))
  rw [parts]
  refine ⟨?_, ?_, fun {this after} ready => ?_⟩
  · dsimp only
    omega
  · dsimp only
    omega
  · dsimp only
    generalize isTag : 16 * typeBits typeMap + 8 * value + 4 * (decide (tagId >>> 2 > 0)).toNat
      + tagId % 4 = n
    have isValue : n >>> 3 &&& 0x1 = value := by
      refine (low_bits (n >>> 3) 1).trans ?_
      rw [Nat.shiftRight_eq_div_pow]
      omega
    have reads : readTagId (this.at (some64 (tagId >>> 2) ++ (some64 0 ++ after))) (n &&& 0x3)
        (n &&& 0x4 != 0) 2 = .ok (tagId, this.at after) :=
      readTagId_tag ready n 2 2 (by omega) (by omega) range
    unfold readTagValue
    rw [multi, if_neg Bool.false_ne_true, if_pos single, reads, isValue]
    rfl

theorem readable_container (multi : (packTypeMapData typeMap).valueMultiBit = false)
    (single : (packTypeMapData typeMap).valueSingleBit = false) (known : typeMap ≠ .unknown)
    (range : tagId < 2 ^ 32) : Readable typeMap tagId 0 (tagParts typeMap tagId 0) := by
  obtain ⟨-, bits⟩ := typeBits_pos known
  have tag := container_tag ⟨typeBits typeMap, bits⟩ ⟨tagId % 8, by omega⟩
    (decide (tagId >>> 3 > 0))
  simp only [decide_eq_true_eq] at tag
  have parts : tagParts typeMap tagId 0 = (16 * typeBits typeMap
      + 8 * (decide (tagId >>> 3 > 0)).toNat + tagId % 8, tagId >>> 3, 0) := by
    have low : tagId &&& 7 = tagId % 8 := low_bits tagId 3
    unfold tagParts
    rw [multi, if_neg Bool.false_ne_true, single, if_neg Bool.false_ne_true, typeBits_eq, low, ← tag]
  have flag := Bool.toNat_le (decide (tagId >>> 3 > 0))
  rw [parts]
  refine ⟨?_, ?_, fun {this after} ready => ?_⟩
  · dsimp only
    omega
  · dsimp only
    omega
  · dsimp only
    generalize isTag : 16 * typeBits typeMap + 8 * (decide (tagId >>> 3 > 0)).toNat
      + tagId % 8 = n
    have reads : readTagId (this.at (some64 (tagId >>> 3) ++ (some64 0 ++ after))) (n &&& 0x7)
        (n &&& 0x8 != 0) 3 = .ok (tagId, this.at after) :=
      readTagId_tag ready n 3 3 (by omega) (by omega) range
    unfold readTagValue
    rw [multi, if_neg Bool.false_ne_true, single, if_neg Bool.false_ne_true, reads]
    rfl

/-- A value of every kind of type is read back. -/
theorem readable (fits : Fits typeMap value) (range : tagId < 2 ^ 32) :
    Readable typeMap tagId value (tagParts typeMap tagId value) := by
  obtain ⟨known, bound, kind⟩ := fits
  by_cases multi : (packTypeMapData typeMap).valueMultiBit = true
  · by_cases small : value < 2
    · exact readable_multi_in multi known range small
    · exact readable_multi_behind multi known range bound small
  · have notMulti := Bool.eq_false_of_not_eq_true multi
    by_cases single : (packTypeMapData typeMap).valueSingleBit = true
    · refine readable_single notMulti single known range ?_
      rcases kind with isMulti | ⟨-, small⟩ | zero
      · exact absurd isMulti multi
      · exact small
      · omega
    · have zero : value = 0 := by
        rcases kind with isMulti | ⟨isSingle, -⟩ | zero
        · exact absurd isMulti multi
        · exact absurd isSingle single
        · exact zero
      subst zero
      exact readable_container notMulti (Bool.eq_false_of_not_eq_true single) known range

/-- The reader after a tag: the id counts from the last one. -/
def PackRead.tagged (this : PackRead) (typeMap : PackTypeMap) (id value : Nat) : PackRead :=
  { this with tagNextId := id, tagNextTypeMap := typeMap, tagNextValue := value }

theorem pckReadTagNext_at (ready : this.Ready) (after : Bytes) (fits : Fits typeMap value)
    {id : Nat} (above : this.tagStackTop.idLast < id) (range : id < 2 ^ 32) :
    pckReadTagNext
        (this.at (tagBytes typeMap (id - this.tagStackTop.idLast - 1) value ++ after))
      = .ok (true, (this.at after).tagged typeMap id value) := by
  have parts := readable fits (show id - this.tagStackTop.idLast - 1 < 2 ^ 32 by omega)
  generalize isParts : tagParts typeMap (id - this.tagStackTop.idLast - 1) value = all at parts
  obtain ⟨tag, high, rest⟩ := all
  obtain ⟨byte, type, reads⟩ := parts
  dsimp only at byte type reads
  have isByte : (UInt8.ofNat tag).toNat = tag := by
    rw [UInt8.toNat_ofNat']
    omega
  have positive := (typeBits_pos fits.1).1
  have nonzero : ¬tag = 0 := by omega
  have bytes : tagBytes typeMap (id - this.tagStackTop.idLast - 1) value ++ after
      = UInt8.ofNat tag :: (typeBytes typeMap ++ (some64 high ++ (some64 rest ++ after))) := by
    unfold tagBytes
    rw [isParts]
    simp only [List.cons_append, List.nil_append, List.append_assoc]
  have counted : (id - this.tagStackTop.idLast - 1 + this.tagStackTop.idLast + 1) % 2 ^ 32 = id := by
    omega
  unfold pckReadTagNext
  rw [bytes, nextByte_at ready]
  dsimp only [bind, Except.bind]
  rw [isByte, if_neg nonzero, readTypeMap_at ready fits.1 type]
  dsimp only
  rw [reads ready]
  dsimp only [PackRead.at] at counted ⊢
  rw [counted]
  rfl

theorem pckReadTagNext_end (ready : this.Ready) (after : Bytes) :
    pckReadTagNext (this.at (0 :: after))
      = .ok (false, { this.at after with tagNextId := uintMax }) := by
  unfold pckReadTagNext
  rw [nextByte_at ready]
  rfl

end Tag

end Pack
