import Backrest.PackTag

/-!
# The fields of a pack

A pack stands for a list of fields with increasing ids, and a reader stands
somewhere in it: between two fields, behind a tag, or at the end. Searching for
an id passes the fields before it, as long as none of them is a container or a
pack, and stops at the field with the id or at the next one.
-/

namespace Pack

open Text StringId Base128

section Fields

inductive Field where
  | scalar (id : Nat) (typeMap : PackTypeMap) (value : Nat)
  | data (id : Nat) (typeMap : PackTypeMap) (bytes : Bytes)
  | pack (id : Nat) (fields : List Field)
  | container (id : Nat) (typeMap : PackTypeMap) (fields : List Field)

def Field.id : Field → Nat
  | scalar id _ _ => id
  | data id _ _ => id
  | pack id _ => id
  | container id _ _ => id

def Field.typeMap : Field → PackTypeMap
  | scalar _ typeMap _ => typeMap
  | data _ typeMap _ => typeMap
  | pack _ _ => .pack
  | container _ typeMap _ => typeMap

/-- The value of the tag. -/
def Field.value : Field → Nat
  | scalar _ _ value => value
  | data _ _ bytes => if bytes.isEmpty then 0 else 1
  | pack _ _ => 0
  | container _ _ _ => 0

/-- The data of a field ends where its size says. -/
def Field.isFlat : Field → Bool
  | scalar _ _ _ => true
  | data _ _ _ => true
  | pack _ _ => false
  | container _ _ _ => false

mutual

/-- What comes after the tag. -/
def Field.payload : Field → Bytes
  | .scalar _ _ _ => []
  | .data _ _ bytes =>
    if bytes.isEmpty then [] else encode packUInt64SizeMax bytes.length ++ bytes
  | .pack _ fields =>
    encode packUInt64SizeMax (fieldsBytes 0 fields ++ [0]).length ++ (fieldsBytes 0 fields ++ [0])
  | .container _ _ fields => fieldsBytes 0 fields ++ [0]

def fieldsBytes : Nat → List Field → Bytes
  | _, [] => []
  | last, field :: rest =>
    tagBytes field.typeMap (field.id - last - 1) field.value ++
      (field.payload ++ fieldsBytes field.id rest)

end

mutual

/-- The type goes with what the field holds. -/
def Field.Valid : Field → Prop
  | .scalar _ typeMap value => Fits typeMap value ∧ (packTypeMapData typeMap).size = false
  | .data _ typeMap bytes => (typeMap = .str ∨ typeMap = .bin) ∧ bytes.length < 2 ^ 64
  | .pack _ fields => ValidFrom 0 fields ∧ (fieldsBytes 0 fields ++ [0]).length < 2 ^ 64
  | .container _ typeMap fields => (typeMap = .array ∨ typeMap = .obj) ∧ ValidFrom 0 fields

/-- The ids increase and leave those that mark an end and the one before them. -/
def ValidFrom : Nat → List Field → Prop
  | _, [] => True
  | last, field :: rest =>
    (last < field.id ∧ field.id < uintMax - 2) ∧ field.Valid ∧ ValidFrom field.id rest

end

theorem Field.Valid.fits {field : Field} (valid : field.Valid) : Fits field.typeMap field.value := by
  cases field with
  | scalar id typeMap value =>
    rw [Field.Valid] at valid
    exact valid.1
  | data id typeMap bytes =>
    rw [Field.Valid] at valid
    have bit : (if bytes.isEmpty then 0 else 1) < 2 := by split <;> omega
    rcases valid.1 with rfl | rfl
    · exact ⟨PackTypeMap.noConfusion, Nat.lt_trans bit (by decide), Or.inr (Or.inl ⟨rfl, bit⟩)⟩
    · exact ⟨PackTypeMap.noConfusion, Nat.lt_trans bit (by decide), Or.inr (Or.inl ⟨rfl, bit⟩)⟩
  | pack id fields =>
    exact ⟨PackTypeMap.noConfusion, Nat.two_pow_pos 64, Or.inr (Or.inr rfl)⟩
  | container id typeMap fields =>
    rw [Field.Valid] at valid
    refine ⟨?_, Nat.two_pow_pos 64, Or.inr (Or.inr rfl)⟩
    rcases valid.1 with rfl | rfl
    · exact PackTypeMap.noConfusion
    · exact PackTypeMap.noConfusion

theorem ValidFrom.from {last last' : Nat} {field : Field} {rest : List Field}
    (valid : ValidFrom last (field :: rest)) (below : last' < field.id) :
    ValidFrom last' (field :: rest) := by
  rw [ValidFrom] at valid ⊢
  exact ⟨⟨below, valid.1.2⟩, valid.2⟩

theorem tagBytes_ne_nil (typeMap : PackTypeMap) (tagId value : Nat) :
    tagBytes typeMap tagId value ≠ [] := by
  unfold tagBytes
  simp

theorem length_fields (last : Nat) (fields : List Field) :
    fields.length ≤ (fieldsBytes last fields).length := by
  induction fields generalizing last with
  | nil => exact Nat.zero_le _
  | cons field rest ih =>
    have tag := List.length_pos_iff.mpr
      (tagBytes_ne_nil field.typeMap (field.id - last - 1) field.value)
    have others := ih field.id
    rw [fieldsBytes, List.length_cons, List.length_append, List.length_append]
    omega

end Fields

section Stand

structure Between (tail : Bytes) (this : PackRead) (last : Nat) (fields : List Field) : Prop where
  tagNextId : this.tagNextId = 0
  idLast : this.tagStackTop.idLast = last
  rest : this.rest = fieldsBytes last fields ++ 0 :: tail

/-- Behind the tag of a field that is not taken yet. -/
structure Before (tail : Bytes) (this : PackRead) (last : Nat) (field : Field) (fields : List Field) :
    Prop where
  tagNextId : this.tagNextId = field.id
  tagNextTypeMap : this.tagNextTypeMap = field.typeMap
  tagNextValue : this.tagNextValue = field.value
  idLast : this.tagStackTop.idLast = last
  rest : this.rest = field.payload ++ (fieldsBytes field.id fields ++ 0 :: tail)

/-- Behind the end of the container. -/
structure Ended (tail : Bytes) (this : PackRead) (last : Nat) : Prop where
  tagNextId : this.tagNextId = uintMax
  idLast : this.tagStackTop.idLast = last
  rest : this.rest = tail

inductive At (tail : Bytes) (this : PackRead) (last : Nat) : List Field → Prop where
  | between {fields : List Field} (stands : Between tail this last fields) : At tail this last fields
  | before {field : Field} {fields : List Field} (stands : Before tail this last field fields) :
    At tail this last (field :: fields)
  | ended (stands : Ended tail this last) : At tail this last []

/-- Behind the tag of a field that is taken. -/
structure Inside (tail : Bytes) (this : PackRead) (field : Field) (fields : List Field) : Prop where
  tagNextId : this.tagNextId = 0
  idLast : this.tagStackTop.idLast = field.id
  tagNextValue : this.tagNextValue = field.value
  rest : this.rest = field.payload ++ (fieldsBytes field.id fields ++ 0 :: tail)

/-- What no read changes. -/
structure Same (this after : PackRead) : Prop where
  read : after.read = this.read
  tagStack : after.tagStack = this.tagStack
  typeMap : after.tagStackTop.typeMap = this.tagStackTop.typeMap
  nullTotal : after.tagStackTop.nullTotal = this.tagStackTop.nullTotal

theorem Same.refl (this : PackRead) : Same this this := ⟨rfl, rfl, rfl, rfl⟩

theorem Same.trans {first second third : PackRead} (one : Same first second)
    (two : Same second third) : Same first third where
  read := two.read.trans one.read
  tagStack := two.tagStack.trans one.tagStack
  typeMap := two.typeMap.trans one.typeMap
  nullTotal := two.nullTotal.trans one.nullTotal

theorem Same.ready {this after : PackRead} (same : Same this after) (ready : this.Ready) :
    after.Ready := by
  rw [PackRead.Ready, same.read]
  exact ready

theorem at_self {this : PackRead} {rest : Bytes} (isRest : this.rest = rest) : this.at rest = this := by
  rw [← isRest]
  rfl

end Stand

section Search
variable {tail : Bytes} {this : PackRead} {last id : Nat} {field : Field} {fields : List Field}

/-- Pass the fields below an id, as long as they are flat. -/
def skip (id : Nat) : Nat → List Field → Option (Nat × List Field)
  | last, [] => some (last, [])
  | last, field :: rest =>
    if field.id < id then if field.isFlat then skip id field.id rest else none
    else some (last, field :: rest)

variable {last' : Nat} {left : List Field}

theorem skip_valid (valid : ValidFrom last fields)
    (skipped : skip id last fields = some (last', left)) : ValidFrom last' left := by
  induction fields generalizing last with
  | nil =>
    rw [skip] at skipped
    cases skipped
    exact valid
  | cons field rest ih =>
    rw [skip] at skipped
    split at skipped
    · split at skipped
      · rw [ValidFrom] at valid
        exact ih valid.2.2 skipped
      · cases skipped
    · cases skipped
      exact valid

theorem skip_head (skipped : skip id last fields = some (last', left)) (head : field ∈ left.head?) :
    id ≤ field.id := by
  induction fields generalizing last with
  | nil =>
    rw [skip] at skipped
    cases skipped
    cases head
  | cons other rest ih =>
    rw [skip] at skipped
    split at skipped
    · split at skipped
      · exact ih skipped
      · cases skipped
    · rename_i above
      cases skipped
      rw [List.head?_cons, Option.mem_some_iff] at head
      rw [← head]
      omega

theorem skip_last (below : last < id) (skipped : skip id last fields = some (last', left)) :
    last' < id := by
  induction fields generalizing last with
  | nil =>
    rw [skip] at skipped
    cases skipped
    exact below
  | cons other rest ih =>
    rw [skip] at skipped
    split at skipped
    · rename_i under
      split at skipped
      · exact ih under skipped
      · cases skipped
    · cases skipped
      exact below

theorem skipData_flat (ready : this.Ready) (valid : field.Valid) (flat : field.isFlat = true)
    (stands : Before tail this last field fields) :
    skipData this = .ok (this.at (fieldsBytes field.id fields ++ 0 :: tail)) := by
  unfold skipData
  rw [stands.tagNextTypeMap, stands.tagNextValue]
  cases field with
  | scalar id typeMap value =>
    rw [Field.Valid] at valid
    have noSize : ¬((packTypeMapData typeMap).size = true ∧ value ≠ 0) := by
      rw [valid.2]
      exact fun both => Bool.false_ne_true both.1
    have isRest := stands.rest
    rw [Field.payload, List.nil_append] at isRest
    rw [Field.typeMap, Field.value, if_neg noSize, at_self isRest]
  | data id typeMap bytes =>
    rw [Field.Valid] at valid
    have sized : (packTypeMapData typeMap).size = true := by
      rcases valid.1 with rfl | rfl <;> rfl
    have isRest := stands.rest
    rw [Field.payload, Field.id] at isRest
    rw [Field.typeMap, Field.value, sized]
    cases empty : bytes.isEmpty with
    | true =>
      rw [empty, if_pos rfl, List.nil_append] at isRest
      simp only [if_true, ne_eq, not_true_eq_false, and_false, if_false]
      rw [Field.id, at_self isRest]
    | false =>
      rw [empty, if_neg Bool.false_ne_true, List.append_assoc] at isRest
      have read := readData_at ready (fieldsBytes id fields ++ 0 :: tail) valid.2
      rw [at_self isRest] at read
      simp only [Bool.false_eq_true, if_false, ne_eq, one_ne_zero, not_false_eq_true, and_self,
        if_true]
      rw [read]
      rfl
  | _ => cases flat

/-- The reader where the search stops. -/
inductive Stops (tail : Bytes) (after : PackRead) (last : Nat) : List Field → Prop where
  | before {field : Field} {fields : List Field} (stands : Before tail after last field fields) :
    Stops tail after last (field :: fields)
  | ended (stands : Ended tail after last) : Stops tail after last []

/-- What the search does where it stops. -/
def finish (id : Nat) (typeMap : PackTypeMap) (peek : Bool) (after : PackRead) :
    Except Error PackRead :=
  if id < after.tagNextId then .ok after else takeTag typeMap peek after

theorem length_at (stands : At tail this last fields) : fields.length ≤ this.rest.length := by
  cases stands with
  | between stands =>
    have many := length_fields last fields
    rw [stands.rest, List.length_append]
    omega
  | before stands =>
    rename_i field rest
    have many := length_fields field.id rest
    rw [stands.rest, List.length_append, List.length_append, List.length_cons, List.length_cons]
    omega
  | ended stands => exact Nat.zero_le _

theorem pckReadNext_field {rest : List Field} (ready : this.Ready)
    (valid : ValidFrom last (field :: rest)) (stands : Between tail this last (field :: rest)) :
    ∃ after, pckReadNext this = .ok (true, after) ∧ Same this after ∧
      Before tail after last field rest := by
  rw [ValidFrom] at valid
  obtain ⟨⟨above, range⟩, own, -⟩ := valid
  have isRest := stands.rest
  rw [fieldsBytes, List.append_assoc, List.append_assoc] at isRest
  have small : field.id < 2 ^ 32 := Nat.lt_trans range (by decide)
  have read := pckReadTagNext_at ready (field.payload ++ (fieldsBytes field.id rest ++ 0 :: tail))
    own.fits (by rw [stands.idLast]; exact above) small
  rw [stands.idLast, at_self isRest] at read
  exact ⟨_, read, ⟨rfl, rfl, rfl, rfl⟩, ⟨rfl, rfl, rfl, stands.idLast, rfl⟩⟩

/-- The tag is read where none is there. -/
theorem needTag_at (ready : this.Ready) (valid : ValidFrom last fields)
    (stands : At tail this last fields) :
    ∃ after, needTag this = .ok after ∧ Same this after ∧ Stops tail after last fields := by
  unfold needTag
  cases stands with
  | between stands =>
    rw [if_pos stands.tagNextId]
    cases fields with
    | nil =>
      have read := pckReadTagNext_end ready tail
      rw [← List.nil_append (0 :: tail), ← show fieldsBytes last [] = [] by rw [fieldsBytes],
        at_self stands.rest] at read
      rw [read]
      exact ⟨_, rfl, ⟨rfl, rfl, rfl, rfl⟩, Stops.ended ⟨rfl, stands.idLast, rfl⟩⟩
    | cons field rest =>
      obtain ⟨after, read, same, before⟩ := pckReadNext_field ready valid stands
      rw [show pckReadTagNext this = .ok (true, after) from read]
      exact ⟨after, rfl, same, Stops.before before⟩
  | before stands =>
    rename_i field rest
    rw [ValidFrom] at valid
    have positive : this.tagNextId ≠ 0 := by
      rw [stands.tagNextId]
      omega
    rw [if_neg positive]
    exact ⟨this, rfl, Same.refl this, Stops.before stands⟩
  | ended stands =>
    have positive : this.tagNextId ≠ 0 := by
      rw [stands.tagNextId]
      decide
    rw [if_neg positive]
    exact ⟨this, rfl, Same.refl this, Stops.ended stands⟩

theorem searchTag_spec (typeMap : PackTypeMap) (peek : Bool) (fuel : Nat) :
    ∀ {this : PackRead} {last : Nat} {fields : List Field}, this.Ready →
    ValidFrom last fields → At tail this last fields → id < uintMax → fields.length < fuel →
    skip id last fields = some (last', left) →
    ∃ after, searchTag id typeMap peek fuel this = finish id typeMap peek after ∧
      Same this after ∧ Stops tail after last' left := by
  induction fuel with
  | zero =>
    intro this last fields _ _ _ _ enough
    exact absurd enough (Nat.not_lt_zero _)
  | succ fuel ih =>
    intro this last fields ready valid stands small enough skipped
    obtain ⟨between, read, same, stops⟩ := needTag_at ready valid stands
    rw [searchTag, read]
    dsimp only [bind, Except.bind]
    cases stops with
    | ended ends =>
      rw [skip] at skipped
      cases skipped
      have under : id < between.tagNextId := by
        rw [ends.tagNextId]
        exact small
      refine ⟨between, ?_, same, Stops.ended ends⟩
      rw [finish, if_pos under, if_pos under]
    | before stops =>
      rename_i field rest
      rw [skip] at skipped
      by_cases below : field.id < id
      · rw [if_pos below] at skipped
        by_cases flat : field.isFlat = true
        · rw [if_pos flat] at skipped
          rw [ValidFrom] at valid
          obtain ⟨-, own, others⟩ := valid
          rw [if_neg (by rw [stops.tagNextId]; omega), if_neg (by rw [stops.tagNextId]; omega),
            skipData_flat (same.ready ready) own flat stops]
          dsimp only
          have next : Between tail (passTag (between.at (fieldsBytes field.id rest ++ 0 :: tail)))
              field.id rest := ⟨rfl, stops.tagNextId, rfl⟩
          rw [List.length_cons] at enough
          obtain ⟨after, found, keeps, isStop⟩ :=
            @ih (passTag (between.at (fieldsBytes field.id rest ++ 0 :: tail))) field.id rest
              (same.ready ready) others (At.between next) small (by omega) skipped
          exact ⟨after, found, same.trans ⟨keeps.read, keeps.tagStack, keeps.typeMap,
            keeps.nullTotal⟩, isStop⟩
        · rw [if_neg flat] at skipped
          cases skipped
      · rw [if_neg below] at skipped
        cases skipped
        refine ⟨between, ?_, same, Stops.before stops⟩
        rw [finish]
        by_cases under : id < between.tagNextId
        · rw [if_pos under, if_pos under]
        · rw [if_neg under, if_neg under, if_pos (by rw [stops.tagNextId] at under ⊢; omega)]

/-- The id that a read asks for. -/
def idAt (id last : Nat) : Nat := if id = 0 then last + 1 else id

theorem At.idLast (stands : At tail this last fields) : this.tagStackTop.idLast = last := by
  cases stands with
  | between stands => exact stands.idLast
  | before stands => exact stands.idLast
  | ended stands => exact stands.idLast

theorem pckReadTag_spec (typeMap : PackTypeMap) (peek : Bool) (ready : this.Ready)
    (valid : ValidFrom last fields) (stands : At tail this last fields)
    (above : last < idAt id last) (small : idAt id last < uintMax)
    (skipped : skip (idAt id last) last fields = some (last', left)) :
    ∃ after, Same this after ∧ Stops tail after last' left ∧
      pckReadTag this id typeMap peek = (finish (idAt id last) typeMap peek after).map
        fun found => (found.tagNextValue, idAt id last, found) := by
  have isLast := stands.idLast
  have asked : (if id = 0 then (this.tagStackTop.idLast + 1) % 2 ^ 32 else id) = idAt id last := by
    rw [isLast]
    unfold idAt at small ⊢
    split
    · rename_i auto
      rw [if_pos auto] at small
      exact Nat.mod_eq_of_lt (Nat.lt_trans small (by decide))
    · rfl
  have passes : ¬(id ≠ 0 ∧ id ≤ this.tagStackTop.idLast) := by
    rintro ⟨own, low⟩
    rw [idAt, if_neg own] at above
    omega
  have many := length_at stands
  obtain ⟨after, found, same, stops⟩ := searchTag_spec typeMap peek
    (this.rest.length + 2) ready valid stands small (by omega) skipped
  refine ⟨after, same, stops, ?_⟩
  unfold pckReadTag
  dsimp only
  rw [if_neg passes, asked, found]
  cases finish (idAt id last) typeMap peek after <;> rfl

end Search

end Pack
