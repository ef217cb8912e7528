import Backrest.PackRequest

/-!
# The reader gives the answers

On the bytes of a list of fields the reader answers every request as the list
does. Containers and inner packs are read by the same reader in between, which
is back behind them afterwards.
-/

namespace Pack

open Text StringId Base128

section Found
variable {tail : Bytes} {this : PackRead} {asked id last last' : Nat} {field : Field}
  {fields left : List Field}

theorem Inside.between (inside : Inside tail this field fields) (empty : field.payload = []) :
    Between tail this field.id fields :=
  ⟨inside.tagNextId, inside.idLast, by rw [inside.rest, empty, List.nil_append]⟩

theorem Asks.field_missing {α : Type} (asks : Asks tail this asked id last fields last' left)
    (missing : ∀ field ∈ left.head?, field.id ≠ id) (defaultValue : α)
    (read : PackRead → Nat → Except Error (α × PackRead)) :
    ∃ after, readField this asked defaultValue read = .ok (defaultValue, after) ∧
      Same this after ∧ At tail after id left ∧ ValidFrom id left := by
  obtain ⟨after, null, keeps, stands, valid⟩ := asks.null_missing missing
  refine ⟨after, ?_, keeps, stands, valid⟩
  unfold readField
  rw [null]
  rfl

theorem Asks.field_found {α : Type}
    (asks : Asks tail this asked id last fields last' (field :: left)) (same : field.id = id)
    (defaultValue : α) (read : PackRead → Nat → Except Error (α × PackRead)) :
    ∃ between, readField this asked defaultValue read = read between field.id ∧
      Same this between ∧ Before tail between last' field left := by
  obtain ⟨between, null, keeps, stands⟩ := asks.null_found same
  refine ⟨between, ?_, keeps, stands⟩
  unfold readField
  rw [null, same]
  rfl

theorem Asks.left_valid (asks : Asks tail this asked id last fields last' left) :
    ValidFrom last' left := skip_valid asks.valid asks.skipped

theorem Asks.scalar_found {α : Type} {scalar : Scalar α} {fid value : Nat}
    (asks : Asks tail this asked id last fields last' (.scalar fid scalar.typeMap value :: left))
    (same : fid = id) (defaultValue : α) :
    ∃ after, readScalar scalar this asked defaultValue = .ok (scalar.ofNat value, after) ∧
      Same this after ∧ Between tail after id left := by
  obtain ⟨between, read, keeps, stands⟩ := asks.field_found same defaultValue (scalarField scalar)
  obtain ⟨after, taken, keeps', inside⟩ := take_spec (keeps.ready asks.ready) asks.left_valid stands
  refine ⟨after, ?_, keeps.trans keeps', ?_⟩
  · unfold readScalar
    rw [Field.typeMap] at taken
    rw [read, scalarField, taken]
    rfl
  · rw [← same]
    exact inside.between (by rw [Field.payload])

theorem Asks.bytes_found {typeMap : PackTypeMap} {fid : Nat} {bytes : Bytes}
    (asks : Asks tail this asked id last fields last' (.data fid typeMap bytes :: left))
    (same : fid = id) (defaultValue : Option Bytes) :
    ∃ after, readBytes typeMap this asked defaultValue = .ok (some bytes, after) ∧
      Same this after ∧ Between tail after id left := by
  obtain ⟨between, read, keeps, stands⟩ := asks.field_found same defaultValue (bytesField typeMap)
  have valid := asks.left_valid
  have ready := keeps.ready asks.ready
  obtain ⟨after, taken, keeps', inside⟩ := take_spec ready valid stands
  rw [ValidFrom, Field.Valid] at valid
  rw [Field.typeMap, Field.value] at taken
  unfold readBytes
  rw [read, bytesField, taken]
  dsimp only [bind, Except.bind]
  cases empty : bytes.isEmpty with
  | true =>
    rw [List.isEmpty_iff.mp empty] at inside ⊢
    refine ⟨after, rfl, keeps.trans keeps', ?_⟩
    rw [← same]
    exact inside.between (by rw [Field.payload]; rfl)
  | false =>
    have isRest := inside.rest
    rw [Field.payload, empty, if_neg Bool.false_ne_true, List.append_assoc, Field.id] at isRest
    have data := readData_at (keeps'.ready ready) (fieldsBytes fid left ++ 0 :: tail) valid.2.1.2
    rw [at_self isRest] at data
    refine ⟨after.at (fieldsBytes fid left ++ 0 :: tail), ?_, keeps.trans ⟨keeps'.read,
      keeps'.tagStack, keeps'.typeMap, keeps'.nullTotal⟩, ?_⟩
    · rw [if_neg Bool.false_ne_true, if_pos Nat.one_ne_zero, data]
    · rw [← same]
      exact ⟨inside.tagNextId, inside.idLast, rfl⟩

theorem Asks.pack_found {fid : Nat} {sub : List Field}
    (asks : Asks tail this asked id last fields last' (.pack fid sub :: left)) (same : fid = id) :
    ∃ after, pckReadPackBuf this asked = .ok (some (fieldsBytes 0 sub ++ [0]), after) ∧
      Same this after ∧ Between tail after id left := by
  obtain ⟨between, read, keeps, stands⟩ := asks.field_found same none packField
  have valid := asks.left_valid
  have ready := keeps.ready asks.ready
  obtain ⟨after, taken, keeps', inside⟩ := take_spec ready valid stands
  rw [ValidFrom, Field.Valid] at valid
  rw [Field.typeMap, Field.value] at taken
  have isRest := inside.rest
  rw [Field.payload, List.append_assoc, Field.id] at isRest
  have data := readData_at (keeps'.ready ready) (fieldsBytes fid left ++ 0 :: tail) valid.2.1.2
  rw [at_self isRest] at data
  refine ⟨after.at (fieldsBytes fid left ++ 0 :: tail), ?_, keeps.trans ⟨keeps'.read,
    keeps'.tagStack, keeps'.typeMap, keeps'.nullTotal⟩, ?_⟩
  · unfold pckReadPackBuf
    rw [read, packField, taken]
    dsimp only [bind, Except.bind]
    rw [data]
  · rw [← same]
    exact ⟨inside.tagNextId, inside.idLast, rfl⟩

theorem Asks.container_found {α : Type} {typeMap : PackTypeMap} {fid : Nat} {sub : List Field}
    (asks : Asks tail this asked id last fields last' (.container fid typeMap sub :: left))
    (same : fid = id) (error : String) (body : PackRead → Except Error (α × PackRead)) (result : α)
    (inner : ∀ inside : PackRead, inside.Ready → ValidFrom 0 sub →
      Between (fieldsBytes fid left ++ 0 :: tail) inside 0 sub →
      ∃ after, body inside = .ok (result, after) ∧
        Done (fieldsBytes fid left ++ 0 :: tail) inside after) :
    ∃ inside after back, readBegin typeMap this asked = .ok inside ∧
      body inside = .ok (result, after) ∧ readEnd typeMap error after = .ok back ∧
      Same this back ∧ Between tail back id left := by
  obtain ⟨found, keeps, stops, read⟩ := asks.tag typeMap false
  have valid := asks.left_valid
  rw [ValidFrom, Field.Valid] at valid
  cases stops with
  | before stands =>
    have isId := stands.tagNextId
    have isType := stands.tagNextTypeMap
    rw [Field.id] at isId
    rw [Field.typeMap] at isType
    have taken : finish id typeMap false found = .ok (passTag found) := by
      unfold finish takeTag
      rw [isId, same, if_neg (Nat.lt_irrefl _), if_neg Bool.false_ne_true, isType,
        if_neg (not_not.mpr rfl)]
    have isRest := stands.rest
    rw [Field.payload, Field.id, List.append_assoc] at isRest
    have inside : Between (fieldsBytes fid left ++ 0 :: tail) (pushTag typeMap (passTag found)) 0 sub :=
      ⟨rfl, rfl, isRest⟩
    have ready : (pushTag typeMap (passTag found)).Ready := keeps.ready asks.ready
    obtain ⟨after, reads, done⟩ := inner (pushTag typeMap (passTag found)) ready valid.2.1.2 inside
    obtain ⟨back, leaves, isRead, isTop, isStack, isNext, isRest⟩ := done.readEnd error ready rfl rfl
    refine ⟨_, after, back, ?_, reads, leaves, ⟨isRead.trans keeps.read, isStack.trans keeps.tagStack,
      ?_, ?_⟩, ⟨isNext, ?_, ?_⟩⟩
    · unfold readBegin
      rw [read, taken]
      rfl
    · rw [isTop]
      exact keeps.typeMap
    · rw [isTop]
      exact keeps.nullTotal
    · rw [isTop, ← same]
      exact isId
    · rw [isRest, same]

end Found

section Strs
variable {tail : Bytes}

theorem skip_isSome (id last last' : Nat) (fields : List Field) :
    (skip id last fields).isSome = (skip id last' fields).isSome := by
  cases fields with
  | nil => rfl
  | cons field rest =>
    rw [skip, skip]
    split
    · rfl
    · rfl

/-- The strings of a list are read until one is missing. -/
theorem readStrs_spec (fuel : Nat) : ∀ {this : PackRead} {last : Nat} {fields : List Field}
    {values : List (Option Bytes)}, this.Ready → ValidFrom last fields → At tail this last fields →
    last < uintMax - 2 → fields.length < fuel → strsOf last fields = some values →
    ∃ after, readStrs fuel this = .ok (values, after) ∧ Done tail this after := by
  induction fuel with
  | zero =>
    intro this last fields values _ _ _ _ enough
    exact absurd enough (Nat.not_lt_zero _)
  | succ fuel ih =>
    intro this last fields values ready valid stands small enough isStrs
    have next : last + 1 = idAt 0 last := by
      rw [idAt, if_pos rfl]
    have stays : skip (last + 1) last fields = some (last, fields) := by
      cases fields with
      | nil => rw [skip]
      | cons field rest =>
        rw [ValidFrom] at valid
        rw [skip, if_neg (by omega)]
    have asks : Asks tail this 0 (last + 1) last fields last fields :=
      ⟨next, ready, valid, stands, by omega, by omega, stays⟩
    by_cases here : ∃ field rest, fields = field :: rest ∧ field.id = last + 1
    · obtain ⟨field, rest, rfl, isNext⟩ := here
      unfold strsOf at isStrs
      rw [if_pos isNext] at isStrs
      obtain ⟨between, null, keeps, before⟩ := asks.null_found isNext
      have asks' : Asks tail between 0 (last + 1) last (field :: rest) last (field :: rest) :=
        ⟨next, keeps.ready ready, valid, At.before before, by omega, by omega, stays⟩
      cases field with
      | data fid typeMap bytes =>
        cases typeMap with
        | str =>
          dsimp only at isStrs
          obtain ⟨others, isOthers, rfl⟩ := Option.map_eq_some_iff.mp isStrs
          rw [Field.id] at isNext
          obtain ⟨after, read, keeps', stands'⟩ := asks'.bytes_found isNext none
          rw [ValidFrom, Field.id] at valid
          have both := keeps.trans keeps'
          subst isNext
          rw [List.length_cons] at enough
          obtain ⟨ended, reads, done⟩ := ih (both.ready ready) valid.2.2 (At.between stands')
            valid.1.2 (by omega) isOthers
          refine ⟨ended, ?_, both.trans done.1, done.2⟩
          have isNull : pckReadNull this 0 = .ok (false, between) := by
            unfold pckReadNull
            rw [null]
            rfl
          have isStr : pckReadStr between 0 none = .ok (some bytes, after) := read
          rw [readStrs, isNull]
          dsimp only [bind, Except.bind]
          rw [if_neg Bool.false_ne_true, isStr]
          dsimp only
          rw [reads]
        | _ => cases isStrs
      | _ => cases isStrs
    · have missing : ∀ field ∈ fields.head?, field.id ≠ last + 1 := by
        intro field mem same
        cases fields with
        | nil => cases mem
        | cons head rest =>
          rw [List.head?_cons, Option.mem_some_iff] at mem
          exact here ⟨head, rest, rfl, by rw [mem]; exact same⟩
      obtain ⟨after, null, keeps, stands', valid'⟩ := asks.null_missing missing
      have ends : values = [] ∧ (skip (uintMax - 1) (last + 1) fields).isSome = true := by
        cases fields with
        | nil =>
          rw [strsOf] at isStrs
          cases isStrs
          exact ⟨rfl, rfl⟩
        | cons field rest =>
          unfold strsOf at isStrs
          rw [if_neg (missing field rfl)] at isStrs
          obtain ⟨stop, skipped, rfl⟩ := Option.map_eq_some_iff.mp isStrs
          refine ⟨rfl, ?_⟩
          rw [skip_isSome _ _ last, skipped]
          rfl
      obtain ⟨rfl, skips⟩ := ends
      refine ⟨after, ?_, keeps, last + 1, fields, stands', valid', by omega, skips⟩
      have isNull : pckReadNull this 0 = .ok (true, after) := by
        unfold pckReadNull
        rw [null]
        rfl
      rw [readStrs, isNull]
      rfl

end Strs

section Requests

theorem head_filter_some {id : Nat} {field : Field} {left : List Field}
    (found : left.head?.filter (·.id = id) = some field) :
    field.id = id ∧ left = field :: left.tail := by
  obtain ⟨isHead, same⟩ := Option.filter_eq_some_iff.mp found
  refine ⟨of_decide_eq_true same, ?_⟩
  cases left with
  | nil => cases isHead
  | cons head rest =>
    rw [List.head?_cons, Option.some_inj] at isHead
    rw [isHead, List.tail_cons]

theorem head_filter_none {id : Nat} {left : List Field}
    (missing : left.head?.filter (·.id = id) = none) : ∀ field ∈ left.head?, field.id ≠ id := by
  intro field mem same
  rw [Option.filter_eq_none_iff] at missing
  exact missing field mem (decide_eq_true same)

theorem read_missing (request : Request) {tail : Bytes} {this : PackRead} {id last last' : Nat}
    {fields left : List Field} {answer : Answer}
    (asks : Asks tail this request.id id last fields last' left)
    (missing : ∀ field ∈ left.head?, field.id ≠ id) (isDefault : request.default = some answer) :
    ∃ after, request.read this = .ok (answer, after) ∧ Same this after ∧ At tail after id left ∧
      ValidFrom id left := by
  cases request with
  | null asked =>
    cases isDefault
    obtain ⟨after, null, rest⟩ := asks.null_missing missing
    refine ⟨after, ?_, rest⟩
    unfold Request.read pckReadNull
    rw [Request.id] at null
    rw [null]
    rfl
  | scalar type asked defaultValue =>
    cases isDefault
    obtain ⟨after, read, rest⟩ := asks.field_missing missing (type.default defaultValue)
      (scalarField type.scalar)
    refine ⟨after, ?_, rest⟩
    unfold Request.read
    rw [Request.id] at read
    rw [pckReadScalar_eq, readScalar, read]
    rfl
  | str asked defaultValue =>
    cases isDefault
    obtain ⟨after, read, rest⟩ := asks.field_missing missing defaultValue (bytesField .str)
    refine ⟨after, ?_, rest⟩
    unfold Request.read pckReadStr readBytes
    rw [Request.id] at read
    rw [read]
    rfl
  | bin asked =>
    cases isDefault
    obtain ⟨after, read, rest⟩ := asks.field_missing missing none (bytesField .bin)
    refine ⟨after, ?_, rest⟩
    unfold Request.read pckReadBin readBytes
    rw [Request.id] at read
    rw [read]
    rfl
  | strLst asked =>
    cases isDefault
    obtain ⟨after, read, rest⟩ := asks.field_missing missing none strLstField
    refine ⟨after, ?_, rest⟩
    unfold Request.read pckReadStrLst
    rw [Request.id] at read
    rw [read]
    rfl
  | packBuf asked =>
    cases isDefault
    obtain ⟨after, read, rest⟩ := asks.field_missing missing none packField
    refine ⟨after, ?_, rest⟩
    unfold Request.read pckReadPackBuf
    rw [Request.id] at read
    rw [read]
    rfl
  | pack asked requests =>
    cases isDefault
    obtain ⟨after, read, rest⟩ := asks.field_missing missing none packField
    refine ⟨after, ?_, rest⟩
    unfold Request.read pckReadPack pckReadPackBuf
    rw [Request.id] at read
    rw [read]
    rfl
  | _ => cases isDefault

theorem pckReadNewBuf_between (fields : List Field) :
    Between [] (pckReadNewBuf (fieldsBytes 0 fields ++ [0])) 0 fields := ⟨rfl, rfl, rfl⟩

mutual

theorem read_request : ∀ (request : Request) ⦃tail : Bytes⦄ ⦃this : PackRead⦄ ⦃id last last' : Nat⦄
    ⦃field : Field⦄ ⦃fields left : List Field⦄ ⦃answer : Answer⦄,
    Asks tail this request.id id last fields last' (field :: left) → field.id = id →
    request.answer field = some answer →
    ∃ after, request.read this = .ok (answer, after) ∧ Same this after ∧
      if request.isNull then At tail after last' (field :: left) else At tail after id left
  | .null asked => by
    intro tail this id last last' field fields left answer asks same isAnswer
    rw [Request.answer] at isAnswer
    cases isAnswer
    obtain ⟨after, null, keeps, stands⟩ := asks.null_found same
    refine ⟨after, ?_, keeps, ?_⟩
    · unfold Request.read pckReadNull
      rw [Request.id] at null
      rw [null]
      rfl
    · exact At.before stands
  | .scalar type asked defaultValue => by
    intro tail this id last last' field fields left answer asks same isAnswer
    cases field with
    | scalar fid typeMap value =>
      rw [Request.answer] at isAnswer
      by_cases isType : typeMap = type.scalar.typeMap
      · rw [if_pos isType] at isAnswer
        cases isAnswer
        subst isType
        obtain ⟨after, read, keeps, stands⟩ := asks.scalar_found same (type.default defaultValue)
        refine ⟨after, ?_, keeps, ?_⟩
        · unfold Request.read
          rw [Request.id] at read
          rw [pckReadScalar_eq, read]
          rfl
        · exact At.between stands
      · rw [if_neg isType] at isAnswer
        cases isAnswer
    | _ => cases isAnswer
  | .str asked defaultValue => by
    intro tail this id last last' field fields left answer asks same isAnswer
    cases field with
    | data fid typeMap bytes =>
      cases typeMap with
      | str =>
        rw [Request.answer] at isAnswer
        cases isAnswer
        obtain ⟨after, read, keeps, stands⟩ := asks.bytes_found same defaultValue
        refine ⟨after, ?_, keeps, ?_⟩
        · unfold Request.read pckReadStr
          rw [Request.id] at read
          rw [read]
          rfl
        · exact At.between stands
      | _ => cases isAnswer
    | _ => cases isAnswer
  | .bin asked => by
    intro tail this id last last' field fields left answer asks same isAnswer
    cases field with
    | data fid typeMap bytes =>
      cases typeMap with
      | bin =>
        rw [Request.answer] at isAnswer
        cases isAnswer
        obtain ⟨after, read, keeps, stands⟩ := asks.bytes_found same none
        refine ⟨after, ?_, keeps, ?_⟩
        · unfold Request.read pckReadBin
          rw [Request.id] at read
          rw [read]
          rfl
        · exact At.between stands
      | _ => cases isAnswer
    | _ => cases isAnswer
  | .strLst asked => by
    intro tail this id last last' field fields left answer asks same isAnswer
    cases field with
    | container fid typeMap sub =>
      cases typeMap with
      | array =>
        rw [Request.answer] at isAnswer
        obtain ⟨values, isStrs, rfl⟩ := Option.map_eq_some_iff.mp isAnswer
        obtain ⟨between, null, keeps, before⟩ := asks.field_found same none strLstField
        have valid := asks.left_valid
        have bounds := valid
        rw [ValidFrom] at bounds
        have own : idAt fid last' = fid := by
          rw [Field.id] at bounds
          rw [idAt, if_neg (by omega)]
        have stays : skip fid last' (.container fid .array sub :: left)
            = some (last', .container fid .array sub :: left) := by
          rw [skip, Field.id, if_neg (Nat.lt_irrefl _)]
        have range := bounds.1
        rw [Field.id] at range
        have again : Asks tail between fid fid last' (.container fid .array sub :: left) last'
            (.container fid .array sub :: left) :=
          ⟨own.symm, keeps.ready asks.ready, valid, At.before before, range.1, by omega, stays⟩
        obtain ⟨inside, after, back, begins, reads, leaves, keeps', stands⟩ :=
          again.container_found rfl "not in array" (fun this => readStrs (this.rest.length + 1) this)
            values fun inside ready valid' stands' => readStrs_spec (inside.rest.length + 1) ready valid'
              (At.between stands') (by decide) (Nat.lt_succ_of_le (length_at (At.between stands')))
              isStrs
        refine ⟨back, ?_, keeps.trans keeps', ?_⟩
        · unfold Request.read pckReadStrLst
          rw [Request.id] at null
          rw [null]
          unfold strLstField pckReadArrayBegin pckReadArrayEnd
          rw [Field.id, begins]
          dsimp only [bind, Except.bind]
          rw [reads]
          dsimp only
          rw [leaves]
        · rw [Field.id] at same
          rw [← same]
          exact At.between stands
      | _ => cases isAnswer
    | _ => cases isAnswer
  | .packBuf asked => by
    intro tail this id last last' field fields left answer asks same isAnswer
    cases field with
    | pack fid sub =>
      rw [Request.answer] at isAnswer
      cases isAnswer
      obtain ⟨after, read, keeps, stands⟩ := asks.pack_found same
      refine ⟨after, ?_, keeps, ?_⟩
      · unfold Request.read
        rw [Request.id] at read
        rw [read]
        rfl
      · exact At.between stands
    | _ => cases isAnswer
  | .pack asked requests => by
    intro tail this id last last' field fields left answer asks same isAnswer
    cases field with
    | pack fid sub =>
      rw [Request.answer] at isAnswer
      obtain ⟨values, isAnswers, rfl⟩ := Option.map_eq_some_iff.mp isAnswer
      obtain ⟨after, read, keeps, stands⟩ := asks.pack_found same
      have valid := asks.left_valid
      rw [ValidFrom, Field.Valid] at valid
      have ready : (pckReadNewBuf (fieldsBytes 0 sub ++ [0])).Ready := fun none => by cases none
      obtain ⟨inner, reads, done⟩ := read_requests requests ready valid.2.1.1
        (At.between (pckReadNewBuf_between sub)) (by decide) isAnswers
      obtain ⟨ended, ends, -⟩ := done.pckReadEnd ready rfl
      refine ⟨after, ?_, keeps, ?_⟩
      · unfold Request.read pckReadPack
        rw [Request.id] at read
        rw [read]
        dsimp only [bind, Except.bind, Option.map]
        rw [reads]
        dsimp only
        rw [ends]
      · exact At.between stands
    | _ => cases isAnswer
  | .array asked requests => by
    intro tail this id last last' field fields left answer asks same isAnswer
    cases field with
    | container fid typeMap sub =>
      cases typeMap with
      | array =>
        rw [Request.answer] at isAnswer
        obtain ⟨values, isAnswers, rfl⟩ := Option.map_eq_some_iff.mp isAnswer
        obtain ⟨inside, after, back, begins, reads, leaves, keeps, stands⟩ :=
          asks.container_found same "not in array" (readRequests requests) values
            fun inside ready valid' stands' =>
              read_requests requests ready valid' (At.between stands') (by decide) isAnswers
        refine ⟨back, ?_, keeps, ?_⟩
        · unfold Request.read pckReadArrayBegin pckReadArrayEnd
          rw [Request.id] at begins
          rw [begins]
          dsimp only [bind, Except.bind]
          rw [reads]
          dsimp only
          rw [leaves]
        · exact At.between stands
      | _ => cases isAnswer
    | _ => cases isAnswer
  | .obj asked requests => by
    intro tail this id last last' field fields left answer asks same isAnswer
    cases field with
    | container fid typeMap sub =>
      cases typeMap with
      | obj =>
        rw [Request.answer] at isAnswer
        obtain ⟨values, isAnswers, rfl⟩ := Option.map_eq_some_iff.mp isAnswer
        obtain ⟨inside, after, back, begins, reads, leaves, keeps, stands⟩ :=
          asks.container_found same "not in object" (readRequests requests) values
            fun inside ready valid' stands' =>
              read_requests requests ready valid' (At.between stands') (by decide) isAnswers
        refine ⟨back, ?_, keeps, ?_⟩
        · unfold Request.read pckReadObjBegin pckReadObjEnd
          rw [Request.id] at begins
          rw [begins]
          dsimp only [bind, Except.bind]
          rw [reads]
          dsimp only
          rw [leaves]
        · exact At.between stands
      | _ => cases isAnswer
    | _ => cases isAnswer

theorem read_requests : ∀ (requests : List Request) ⦃tail : Bytes⦄ ⦃this : PackRead⦄ ⦃last : Nat⦄
    ⦃fields : List Field⦄ ⦃result : List Answer⦄, this.Ready → ValidFrom last fields →
    At tail this last fields → last < uintMax - 1 → answers requests last fields = some result →
    ∃ after, readRequests requests this = .ok (result, after) ∧ Done tail this after
  | [] => by
    intro tail this last fields result ready valid stands small isAnswers
    rw [answers] at isAnswers
    obtain ⟨stop, skipped, rfl⟩ := Option.map_eq_some_iff.mp isAnswers
    refine ⟨this, by rw [readRequests], Same.refl this, last, fields, stands, valid, small, ?_⟩
    rw [skipped]
    rfl
  | request :: rest => by
    intro tail this last fields result ready valid stands small isAnswers
    rw [answers] at isAnswers
    dsimp only at isAnswers
    by_cases inRange : last < idAt request.id last ∧ idAt request.id last < uintMax - 1
    · rw [if_pos inRange] at isAnswers
      obtain ⟨⟨last', left⟩, skipped, isAnswers⟩ := Option.bind_eq_some_iff.mp isAnswers
      have asks : Asks tail this request.id (idAt request.id last) last fields last' left :=
        ⟨rfl, ready, valid, stands, inRange.1, inRange.2, skipped⟩
      have isLast := skip_last inRange.1 skipped
      cases found : left.head?.filter (·.id = idAt request.id last) with
      | none =>
        rw [found] at isAnswers
        obtain ⟨answer, isDefault, isAnswers⟩ := Option.bind_eq_some_iff.mp isAnswers
        obtain ⟨others, isOthers, rfl⟩ := Option.map_eq_some_iff.mp isAnswers
        obtain ⟨between, read, keeps, stands', valid'⟩ :=
          read_missing request asks (head_filter_none found) isDefault
        obtain ⟨after, reads, done⟩ :=
          read_requests rest (keeps.ready ready) valid' stands' inRange.2 isOthers
        refine ⟨after, ?_, keeps.trans done.1, done.2⟩
        rw [readRequests, read]
        dsimp only [bind, Except.bind]
        rw [reads]
      | some field =>
        rw [found] at isAnswers
        obtain ⟨answer, isAnswer, isAnswers⟩ := Option.bind_eq_some_iff.mp isAnswers
        obtain ⟨same, isLeft⟩ := head_filter_some found
        rw [isLeft] at asks
        have leftValid := asks.left_valid
        obtain ⟨between, read, keeps, stands'⟩ := read_request request asks same isAnswer
        by_cases isNull : request.isNull = true
        · rw [if_pos isNull] at isAnswers stands'
          obtain ⟨others, isOthers, rfl⟩ := Option.map_eq_some_iff.mp isAnswers
          rw [isLeft] at isOthers
          obtain ⟨after, reads, done⟩ :=
            read_requests rest (keeps.ready ready) leftValid stands' (by omega) isOthers
          refine ⟨after, ?_, keeps.trans done.1, done.2⟩
          rw [readRequests, read]
          dsimp only [bind, Except.bind]
          rw [reads]
        · rw [if_neg isNull] at isAnswers stands'
          obtain ⟨others, isOthers, rfl⟩ := Option.map_eq_some_iff.mp isAnswers
          rw [ValidFrom, same] at leftValid
          obtain ⟨after, reads, done⟩ :=
            read_requests rest (keeps.ready ready) leftValid.2.2 stands' inRange.2 isOthers
          refine ⟨after, ?_, keeps.trans done.1, done.2⟩
          rw [readRequests, read]
          dsimp only [bind, Except.bind]
          rw [reads]
    · rw [if_neg inRange] at isAnswers
      cases isAnswers

end

end Requests

end Pack
