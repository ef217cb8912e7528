import Backrest.HttpUri
import Backrest.KeyedList
import Mathlib.Data.Bool.AllAny

/-!
# HTTP queries

A query is written with its keys in order and read from text again. Values are encoded and
decoded. Keys are written as they are, but decoded as well.
-/

namespace HttpQuery

open Text HttpUri

section Code

structure Query where
  kv : List (Str × Str)
  redactList : Option (List Str) := none
  distinct : (kv.map Prod.fst).Nodup

def httpQueryNew : Query where
  kv := []
  distinct := List.nodup_nil

def keyExistsError (key : Str) : Error :=
  ⟨.assertError, "key '".toList ++ key ++ "' already exists".toList⟩

def httpQueryAdd (this : Query) (key value : Str) : Except Error Query :=
  if fresh : key ∈ this.kv.map Prod.fst then .error (keyExistsError key)
  else .ok {
    kv := this.kv ++ [(key, value)]
    redactList := this.redactList
    distinct := by
      rw [List.map_append]
      exact this.distinct.append (List.nodup_singleton key) (by simpa using fresh) }

def httpQueryGet (this : Query) (key : Str) : Option Str :=
  (this.kv.find? fun pair => pair.1 = key).map Prod.snd

def httpQueryList (this : Query) : List Str := strLstSort (this.kv.map Prod.fst) .asc

def httpQueryRedact (this : Query) (key : Str) : Bool := this.redactList.any (key ∈ ·)

/-- The text of one key and its value. -/
def renderPair (this : Query) (redact : Bool) (key : Str) : Str :=
  key ++ '=' :: (if redact && httpQueryRedact this key then "<redacted>".toList
    else httpUriEncode ((httpQueryGet this key).getD []) false)

def httpQueryRender (this : Option Query) (redact : Bool) : Option Str :=
  match this with
  | none => none
  | some this =>
    if httpQueryList this = [] then none
    else some ((httpQueryList this).foldl (fun result key =>
      (if result ≠ [] then result ++ ['&'] else result) ++ renderPair this redact key) [])

def pairError (item query : Str) : Error :=
  ⟨.formatError, "invalid key/value '".toList ++ item ++ "' in query '".toList ++ query ++ ['\'']⟩

def addItem (query : Str) (this : Query) (item : Str) : Except Error Query :=
  match strLstNewSplit '=' item with
  | [key, value] => do
    let key ← httpUriDecode key
    let value ← httpUriDecode value
    httpQueryAdd this key value
  | _ => .error (pairError item query)

/-- An initial `?` is removed. -/
def withoutMark (query : Str) : Str := if strBeginsWith query ['?'] then query.drop 1 else query

def httpQueryNewStr (query : Str) : Except Error Query :=
  (strLstNewSplit '&' (withoutMark query)).foldlM (addItem (withoutMark query)) httpQueryNew

end Code

section Claimed

def ReadBack (query : Query) : Prop :=
  ∃ text, httpQueryRender (some query) false = some text ∧
    ∃ again, httpQueryNewStr text = .ok again ∧ ∀ pair, pair ∈ again.kv ↔ pair ∈ query.kv

/-- The values are strings of bytes. -/
def ByteValues (query : Query) : Prop := ∀ pair ∈ query.kv, ∀ c ∈ pair.2, c.toNat < 256

/-- What keeps a key from being read as it is written: a separator, an escape, or a mark at the
start of the whole text. -/
structure PlainKeys (query : Query) : Prop where
  some : query.kv ≠ []
  plain : ∀ pair ∈ query.kv, '&' ∉ pair.1 ∧ '=' ∉ pair.1 ∧ '%' ∉ pair.1
  first : ∀ key, (httpQueryList query).head? = Option.some key → key.head? ≠ Option.some '?'

end Claimed

section Split
variable {d : Char} {s t : Str} {pieces : List Str}

theorem length_split_pos : 0 < (strLstNewSplit d s).length :=
  List.length_pos_iff.mpr strLstNewSplit_ne_nil

theorem not_mem_of_split (one : (strLstNewSplit d s).length = 1) : d ∉ s := by
  intro mem
  obtain ⟨front, rest, rfl⟩ := List.append_of_mem mem
  rw [strLstNewSplit_concat, List.length_append] at one
  have first := @length_split_pos d front
  have second := @length_split_pos d rest
  omega

/-- The pieces of a text, with a separator before each but the first. -/
def joined : List Str → Str
  | [] => []
  | piece :: pieces => piece ++ pieces.flatMap ('&' :: ·)

theorem split_joined (some : pieces ≠ []) :
    strLstNewSplit '&' (joined pieces) = pieces.flatMap (strLstNewSplit '&') := by
  cases pieces with
  | nil => exact absurd rfl some
  | cons piece pieces =>
    rw [joined]
    induction pieces generalizing piece with
    | nil => simp
    | cons next pieces ih =>
      have later := ih next (by simp)
      rw [List.flatMap_cons, List.cons_append, strLstNewSplit_concat, later]
      rfl

theorem length_le_split (pieces : List Str) :
    pieces.length ≤ (pieces.flatMap (strLstNewSplit '&')).length := by
  induction pieces with
  | nil => simp
  | cons piece pieces ih =>
    have one := @length_split_pos '&' piece
    rw [List.flatMap_cons, List.length_append, List.length_cons]
    omega

/-- The separator is in no piece when there are no more parts than pieces. -/
theorem split_pieces (few : (pieces.flatMap (strLstNewSplit '&')).length ≤ pieces.length) :
    ∀ piece ∈ pieces, '&' ∉ piece := by
  induction pieces with
  | nil => simp
  | cons piece pieces ih =>
    have one := @length_split_pos '&' piece
    have rest := length_le_split pieces
    rw [List.flatMap_cons, List.length_append, List.length_cons] at few
    exact List.forall_mem_cons.mpr ⟨not_mem_of_split (by omega), ih (by omega)⟩

theorem split_of_not_mem (absent : ∀ piece ∈ pieces, '&' ∉ piece) :
    pieces.flatMap (strLstNewSplit '&') = pieces := by
  induction pieces with
  | nil => rfl
  | cons piece pieces ih =>
    obtain ⟨first, others⟩ := List.forall_mem_cons.mp absent
    rw [List.flatMap_cons, ih others, strLstNewSplit_of_not_mem first]
    rfl

end Split

section Render
variable {query : Query}

/-- The keys in order, with their values. -/
def entries (query : Query) : List (Str × Str) :=
  (httpQueryList query).map fun key => (key, (httpQueryGet query key).getD [])

def pieceOf (entry : Str × Str) : Str := entry.1 ++ '=' :: httpUriEncode entry.2 false

theorem httpQueryGet_of_mem {pair : Str × Str} (mem : pair ∈ query.kv) :
    httpQueryGet query pair.1 = some pair.2 := by
  have found := (KeyedList.find_iff query.distinct).mpr ⟨mem, rfl⟩
  rw [httpQueryGet, found]
  rfl

theorem entries_perm (query : Query) : (entries query).Perm query.kv := by
  have order : (entries query).Perm ((query.kv.map Prod.fst).map
      fun key => (key, (httpQueryGet query key).getD [])) := (strLstSort_perm _ .asc).map _
  have same : (query.kv.map Prod.fst).map (fun key => (key, (httpQueryGet query key).getD [])) =
      query.kv := by
    rw [List.map_map]
    have each : ∀ pair ∈ query.kv, ((fun key => (key, (httpQueryGet query key).getD [])) ∘
        Prod.fst) pair = id pair := by
      intro pair mem
      rw [Function.comp_apply, httpQueryGet_of_mem mem]
      rfl
    rw [List.map_congr_left each, List.map_id]
  rw [same] at order
  exact order

theorem httpQueryList_eq (query : Query) : httpQueryList query = (entries query).map Prod.fst := by
  rw [entries, List.map_map]
  exact (List.map_id _).symm

theorem foldl_joined {pieces : List Str} {text : Str} (some : text ≠ []) :
    pieces.foldl (fun result piece =>
      (if result ≠ [] then result ++ ['&'] else result) ++ piece) text =
      text ++ pieces.flatMap ('&' :: ·) := by
  induction pieces generalizing text with
  | nil => simp
  | cons piece pieces ih =>
    rw [List.foldl_cons, if_pos some, ih (by simp), List.flatMap_cons]
    simp

theorem httpQueryRender_eq (query : Query) :
    httpQueryRender (some query) false =
      if query.kv = [] then none else some (joined ((entries query).map pieceOf)) := by
  have empty : httpQueryList query = [] ↔ query.kv = [] := by
    rw [httpQueryList_eq, List.map_eq_nil_iff]
    constructor
    · intro nil
      exact List.nil_perm.mp (nil ▸ entries_perm query)
    · intro nil
      exact List.perm_nil.mp (nil ▸ entries_perm query)
  rw [httpQueryRender]
  by_cases none : query.kv = []
  · rw [if_pos (empty.mpr none), if_pos none]
  · rw [if_neg (mt empty.mp none), if_neg none]
    have fold : ∀ keys : List Str, keys.foldl (fun result key =>
        (if result ≠ [] then result ++ ['&'] else result) ++ renderPair query false key) [] =
        (keys.map fun key => pieceOf (key, (httpQueryGet query key).getD [])).foldl
          (fun result piece => (if result ≠ [] then result ++ ['&'] else result) ++ piece) [] := by
      intro keys
      rw [List.foldl_map]
      rfl
    rw [fold, entries, List.map_map]
    cases list : httpQueryList query with
    | nil => exact absurd (empty.mp list) none
    | cons key keys =>
      rw [List.map_cons, List.foldl_cons, if_neg (not_not_intro rfl), List.nil_append,
        foldl_joined (by simp [pieceOf])]
      rfl

def unmarked : List (Str × Str) → List (Str × Str)
  | [] => []
  | (key, value) :: rest => (withoutMark key, value) :: rest

theorem withoutMark_piece (key : Str) (rest : Str) :
    withoutMark (key ++ '=' :: rest) = withoutMark key ++ '=' :: rest := by
  cases key with
  | nil => rfl
  | cons c key =>
    by_cases mark : c = '?'
    · subst mark
      rfl
    · have plain : ∀ rest, strBeginsWith (c :: rest) ['?'] = false := by
        intro rest
        simp [strBeginsWith, List.isPrefixOf, Ne.symm mark]
      rw [withoutMark, withoutMark, List.cons_append, plain, plain]
      rfl

theorem withoutMark_joined (list : List (Str × Str)) :
    withoutMark (joined (list.map pieceOf)) = joined ((unmarked list).map pieceOf) := by
  cases list with
  | nil => rfl
  | cons entry list =>
    rw [List.map_cons, joined, pieceOf, List.append_assoc, List.cons_append, withoutMark_piece,
      unmarked, List.map_cons, joined, pieceOf, List.append_assoc, List.cons_append]

end Render

section Read
variable {text item : Str} {this again : Query} {items : List Str} {pairs : List (Str × Str)}

def Reads (item : Str) (pair : Str × Str) : Prop :=
  ∃ key value, strLstNewSplit '=' item = [key, value] ∧ httpUriDecode key = .ok pair.1 ∧
    httpUriDecode value = .ok pair.2

theorem httpQueryAdd_ok {key value : Str} (fresh : key ∉ this.kv.map Prod.fst) :
    ∃ next, httpQueryAdd this key value = .ok next ∧ next.kv = this.kv ++ [(key, value)] :=
  ⟨_, dif_neg fresh, rfl⟩

theorem addItem_reads (added : addItem text this item = .ok again) :
    ∃ pair, Reads item pair ∧ again.kv = this.kv ++ [pair] := by
  rw [addItem] at added
  split at added
  next key value split =>
    cases first : httpUriDecode key with
    | error e =>
      rw [first] at added
      cases added
    | ok key' =>
      cases second : httpUriDecode value with
      | error e =>
        rw [first, second] at added
        cases added
      | ok value' =>
        rw [first, second] at added
        refine ⟨(key', value'), ⟨key, value, split, first, second⟩, ?_⟩
        change httpQueryAdd this key' value' = .ok again at added
        by_cases fresh : key' ∈ this.kv.map Prod.fst
        · rw [httpQueryAdd, dif_pos fresh] at added
          cases added
        · obtain ⟨next, ok, kv⟩ := @httpQueryAdd_ok this key' value' fresh
          rw [ok] at added
          cases added
          exact kv
  next => cases added

theorem addItem_ok {pair : Str × Str} (reads : Reads item pair)
    (fresh : pair.1 ∉ this.kv.map Prod.fst) :
    ∃ next, addItem text this item = .ok next ∧ next.kv = this.kv ++ [pair] := by
  obtain ⟨key, value, split, first, second⟩ := reads
  obtain ⟨next, ok, kv⟩ := @httpQueryAdd_ok this pair.1 pair.2 fresh
  refine ⟨next, ?_, kv⟩
  rw [addItem, split]
  dsimp only
  rw [first, second]
  exact ok

theorem foldlM_reads (read : items.foldlM (addItem text) this = .ok again) :
    ∃ pairs, List.Forall₂ Reads items pairs ∧ again.kv = this.kv ++ pairs := by
  induction items generalizing this with
  | nil =>
    cases read
    exact ⟨[], .nil, (List.append_nil _).symm⟩
  | cons item items ih =>
    rw [List.foldlM_cons] at read
    cases added : addItem text this item with
    | error e =>
      rw [added] at read
      cases read
    | ok next =>
      rw [added] at read
      obtain ⟨pair, reads, kv⟩ := addItem_reads added
      obtain ⟨pairs, later, whole⟩ := ih read
      refine ⟨pair :: pairs, .cons reads later, ?_⟩
      rw [whole, kv, List.append_assoc]
      rfl

theorem foldlM_ok (reads : List.Forall₂ Reads items pairs)
    (distinct : (this.kv.map Prod.fst ++ pairs.map Prod.fst).Nodup) :
    ∃ again, items.foldlM (addItem text) this = .ok again ∧ again.kv = this.kv ++ pairs := by
  induction reads generalizing this with
  | nil => exact ⟨this, rfl, (List.append_nil _).symm⟩
  | @cons item pair items pairs read later ih =>
    have fresh : pair.1 ∉ this.kv.map Prod.fst := by
      intro mem
      rw [List.map_cons] at distinct
      exact List.disjoint_of_nodup_append distinct mem List.mem_cons_self
    obtain ⟨next, ok, kv⟩ := @addItem_ok text item this pair read fresh
    have rest : (next.kv.map Prod.fst ++ pairs.map Prod.fst).Nodup := by
      rw [kv, List.map_append, List.append_assoc]
      exact distinct
    obtain ⟨again, run, whole⟩ := ih rest
    refine ⟨again, ?_, ?_⟩
    · rw [List.foldlM_cons, ok]
      exact run
    · rw [whole, kv, List.append_assoc]
      rfl

end Read

section Results
variable {query : Query} {list pairs : List (Str × Str)} {text : Str}

def keySizes (list : List (Str × Str)) : Nat := (list.map fun pair => pair.1.length).sum

theorem keySizes_perm {list' : List (Str × Str)} (perm : list.Perm list') :
    keySizes list = keySizes list' := (perm.map _).sum_nat

/-- A piece is read as the decoded key and the value. -/
theorem reads_pieceOf {entry pair : Str × Str} (bytes : ∀ c ∈ entry.2, c.toNat < 256) :
    Reads (pieceOf entry) pair ↔
      '=' ∉ entry.1 ∧ httpUriDecode entry.1 = .ok pair.1 ∧ pair.2 = entry.2 := by
  have value : httpUriDecode (httpUriEncode entry.2 false) = .ok entry.2 :=
    decodeFrom_httpUriEncode bytes
  have split : strLstNewSplit '=' (pieceOf entry) =
      strLstNewSplit '=' entry.1 ++ [httpUriEncode entry.2 false] := by
    rw [pieceOf, strLstNewSplit_concat,
      strLstNewSplit_of_not_mem (not_mem_httpUriEncode (Or.inr rfl))]
  constructor
  · rintro ⟨first, second, parts, key, decoded⟩
    rw [split] at parts
    have one := congrArg List.length parts
    rw [List.length_append] at one
    have absent := @not_mem_of_split '=' entry.1 (by simpa using one)
    rw [strLstNewSplit_of_not_mem absent] at parts
    cases parts
    rw [value] at decoded
    exact ⟨absent, key, (Except.ok.inj decoded).symm⟩
  · rintro ⟨absent, key, same⟩
    refine ⟨entry.1, httpUriEncode entry.2 false, ?_, key, same ▸ value⟩
    rw [split, strLstNewSplit_of_not_mem absent]
    rfl

theorem reads_keySizes (bytes : ∀ entry ∈ list, ∀ c ∈ entry.2, c.toNat < 256)
    (reads : List.Forall₂ Reads (list.map pieceOf) pairs) :
    (∀ entry ∈ list, '=' ∉ entry.1) ∧
      keySizes pairs + 2 * (list.map fun entry => (escapes entry.1).length).sum = keySizes list := by
  induction list generalizing pairs with
  | nil =>
    cases reads
    exact ⟨by simp, rfl⟩
  | cons entry list ih =>
    obtain ⟨first, others⟩ := List.forall_mem_cons.mp bytes
    cases reads with
    | @cons _ pair _ pairs read later =>
      obtain ⟨absent, key, -⟩ := (reads_pieceOf first).mp read
      obtain ⟨absents, sizes⟩ := ih others later
      have shorter := length_decodeFrom key
      refine ⟨List.forall_mem_cons.mpr ⟨absent, absents⟩, ?_⟩
      simp only [keySizes, List.map_cons, List.sum_cons] at sizes ⊢
      omega

theorem reads_of_plain (bytes : ∀ entry ∈ list, ∀ c ∈ entry.2, c.toNat < 256)
    (plain : ∀ entry ∈ list, '=' ∉ entry.1 ∧ '%' ∉ entry.1) :
    List.Forall₂ Reads (list.map pieceOf) list := by
  induction list with
  | nil => exact .nil
  | cons entry list ih =>
    obtain ⟨first, others⟩ := List.forall_mem_cons.mp bytes
    obtain ⟨⟨noEquals, noPercent⟩, plain⟩ := List.forall_mem_cons.mp plain
    refine .cons ?_ (ih others plain)
    exact (reads_pieceOf first).mpr ⟨noEquals, decodeFrom_self noPercent, rfl⟩

theorem withoutMark_eq (key : Str) :
    withoutMark key = if key.head? = some '?' then key.tail else key := by
  cases key with
  | nil => rfl
  | cons c key =>
    by_cases mark : c = '?'
    · subst mark
      rfl
    · rw [withoutMark, if_neg (by simp [strBeginsWith, List.isPrefixOf, Ne.symm mark]),
        if_neg (by simpa using mark)]

/-- A mark that is removed makes the keys shorter. -/
theorem keySizes_unmarked (list : List (Str × Str)) :
    (unmarked list).length = list.length ∧ keySizes (unmarked list) ≤ keySizes list ∧
      (keySizes list ≤ keySizes (unmarked list) →
        (∀ key, (list.map Prod.fst).head? = some key → key.head? ≠ some '?') ∧
          unmarked list = list) := by
  cases list with
  | nil => exact ⟨rfl, le_rfl, fun _ => ⟨by simp, rfl⟩⟩
  | cons entry list =>
    obtain ⟨key, value⟩ := entry
    rw [unmarked, withoutMark_eq]
    split
    next mark =>
      cases key with
      | nil => cases mark
      | cons c key =>
        simp only [keySizes, List.map_cons, List.sum_cons, List.length_cons, List.tail_cons]
        refine ⟨trivial, by omega, ?_⟩
        intro long
        omega
    next plain =>
      refine ⟨rfl, le_rfl, fun _ => ⟨?_, rfl⟩⟩
      intro first same
      cases same
      exact plain

theorem mem_unmarked {entry : Str × Str} (mem : entry ∈ unmarked list) :
    ∃ other ∈ list, entry.2 = other.2 := by
  cases list with
  | nil => cases mem
  | cons first list =>
    rcases List.mem_cons.mp mem with rfl | later
    · exact ⟨first, List.mem_cons_self, rfl⟩
    · exact ⟨entry, List.mem_cons_of_mem _ later, rfl⟩

theorem mem_entries {pair : Str × Str} : pair ∈ entries query ↔ pair ∈ query.kv :=
  (entries_perm query).mem_iff

theorem plainKeys_of_readBack (bytes : ByteValues query) (readBack : ReadBack query) :
    PlainKeys query := by
  obtain ⟨text, rendered, again, read, same⟩ := readBack
  rw [httpQueryRender_eq] at rendered
  by_cases none : query.kv = []
  · rw [if_pos none] at rendered
    cases rendered
  · rw [if_neg none] at rendered
    cases rendered
    rw [httpQueryNewStr, withoutMark_joined] at read
    obtain ⟨sizes, shorter, exact'⟩ := keySizes_unmarked (entries query)
    have filled : (unmarked (entries query)).map pieceOf ≠ [] := by
      intro nil
      have zero := congrArg List.length nil
      rw [List.length_map, sizes, (entries_perm query).length_eq] at zero
      exact none (List.length_eq_zero_iff.mp zero)
    rw [split_joined filled] at read
    obtain ⟨pairs, reads, kv⟩ := foldlM_reads read
    rw [httpQueryNew, List.nil_append] at kv
    have perm : pairs.Perm query.kv := by
      rw [← kv]
      exact (List.perm_ext_iff_of_nodup again.distinct.of_map query.distinct.of_map).mpr same
    have length : (((unmarked (entries query)).map pieceOf).flatMap (strLstNewSplit '&')).length =
        ((unmarked (entries query)).map pieceOf).length := by
      rw [reads.length_eq, perm.length_eq, List.length_map, sizes, (entries_perm query).length_eq]
    have noSeparator := split_pieces length.le
    rw [split_of_not_mem noSeparator] at reads
    have unmarkedBytes : ∀ entry ∈ unmarked (entries query), ∀ c ∈ entry.2, c.toNat < 256 := by
      intro entry mem
      obtain ⟨other, mem, value⟩ := mem_unmarked mem
      rw [value]
      exact bytes other (mem_entries.mp mem)
    obtain ⟨noEquals, loss⟩ := reads_keySizes unmarkedBytes reads
    rw [keySizes_perm perm, ← keySizes_perm (entries_perm query)] at loss
    obtain ⟨first, unchanged⟩ := exact' (by omega)
    rw [unchanged] at noSeparator noEquals loss
    refine ⟨none, ?_, ?_⟩
    · intro pair mem
      have entry := mem_entries.mpr mem
      refine ⟨?_, noEquals pair entry, ?_⟩
      · have absent := noSeparator _ (List.mem_map_of_mem entry)
        rw [pieceOf, List.mem_append, not_or] at absent
        exact absent.1
      · rw [← escapes_eq_nil_iff, ← List.length_eq_zero_iff]
        have none : ∀ n ∈ (entries query).map fun entry => (escapes entry.1).length, n = 0 := by
          apply List.sum_eq_zero_iff_forall_eq_nat.mp
          omega
        exact none _ (List.mem_map.mpr ⟨pair, entry, rfl⟩)
    · rw [httpQueryList_eq]
      exact first

theorem readBack_of_plainKeys (bytes : ByteValues query) (plain : PlainKeys query) :
    ReadBack query := by
  have entryBytes : ∀ entry ∈ entries query, ∀ c ∈ entry.2, c.toNat < 256 :=
    fun entry mem => bytes entry (mem_entries.mp mem)
  have entryPlain := fun entry (mem : entry ∈ entries query) => plain.plain entry (mem_entries.mp mem)
  have unchanged : unmarked (entries query) = entries query := by
    have first := plain.first
    rw [httpQueryList_eq] at first
    cases list : entries query with
    | nil => rfl
    | cons entry rest =>
      rw [list] at first
      rw [unmarked, withoutMark_eq, if_neg (first entry.1 rfl)]
  have filled : (entries query).map pieceOf ≠ [] := by
    intro nil
    rw [List.map_eq_nil_iff] at nil
    exact plain.some (List.nil_perm.mp (nil ▸ entries_perm query))
  have noSeparator : ∀ piece ∈ (entries query).map pieceOf, '&' ∉ piece := by
    intro piece mem
    obtain ⟨entry, member, rfl⟩ := List.mem_map.mp mem
    rw [pieceOf, List.mem_append, List.mem_cons, not_or, not_or]
    exact ⟨(entryPlain entry member).1, by decide, not_mem_httpUriEncode (Or.inl rfl)⟩
  have distinct : ((entries query).map Prod.fst).Nodup :=
    ((entries_perm query).map Prod.fst).nodup_iff.mpr query.distinct
  obtain ⟨again, read, kv⟩ := @foldlM_ok (joined ((entries query).map pieceOf)) httpQueryNew
    ((entries query).map pieceOf) (entries query)
    (reads_of_plain entryBytes fun entry mem => (entryPlain entry mem).2) distinct
  refine ⟨joined ((entries query).map pieceOf), ?_, again, ?_, ?_⟩
  · rw [httpQueryRender_eq, if_neg plain.some]
  · rw [httpQueryNewStr, withoutMark_joined, unchanged, split_joined filled,
      split_of_not_mem noSeparator]
    exact read
  · intro pair
    rw [kv, httpQueryNew, List.nil_append, mem_entries]

end Results

section Whole

/-- A `%` stands before something other than two digits to the base 16. -/
def Malformed (uri : Str) : Prop := ∃ escape ∈ escapes uri, ¬ HexPair escape

/-- The error of a malformed text. -/
def Refused (uri : Str) : Prop := ∃ e, httpUriDecode uri = .error e ∧ e.type = .formatError

theorem refused_iff (uri : Str) :
    (Malformed uri → Refused uri) ↔ (∀ escape ∈ escapes uri, HexPair escape) ∨
      ∃ escape ∈ escapes uri, ¬ HexPair escape ∧ ¬ SignedDigit escape := by
  obtain ⟨taken, format⟩ := decodeFrom_spec uri uri
  have refused : Refused uri ↔ ¬ ∃ result, httpUriDecode uri = .ok result := by
    constructor
    · rintro ⟨e, error, -⟩ ⟨result, ok⟩
      rw [error] at ok
      cases ok
    · intro none
      cases run : httpUriDecode uri with
      | error e => exact ⟨e, run, format e run⟩
      | ok result => exact absurd ⟨result, run⟩ none
  rw [refused, httpUriDecode, taken]
  constructor
  · intro follows
    by_cases wellFormed : ∀ escape ∈ escapes uri, HexPair escape
    · exact Or.inl wellFormed
    · right
      push Not at wellFormed
      by_contra accepted
      apply follows wellFormed
      intro escape mem
      by_cases pair : HexPair escape
      · exact Or.inl pair
      · by_cases signed : SignedDigit escape
        · exact Or.inr signed
        · exact absurd ⟨escape, mem, pair, signed⟩ accepted
  · rintro (wellFormed | ⟨escape, mem, notPair, notSigned⟩) ⟨other, member, malformed⟩ all
    · exact malformed (wellFormed other member)
    · exact (all escape mem).elim notPair notSigned

/-- Texts are decoded again, queries with plain keys are read back, and a malformed text is refused
unless each of its malformed escapes is a plus sign and a digit. -/
theorem uri_query_iff (s : Str) (path : Bool) (query : Query) (uri : Str) :
    ((∀ c ∈ s, c.toNat < 256 ∧ c ≠ '\x00') → httpUriDecode (httpUriEncode s path) = .ok s) ∧
    (ByteValues query → (ReadBack query ↔ PlainKeys query)) ∧
    ((Malformed uri → Refused uri) ↔ (∀ escape ∈ escapes uri, HexPair escape) ∨
      ∃ escape ∈ escapes uri, ¬ HexPair escape ∧ ¬ SignedDigit escape) := by
  refine ⟨?_, ?_, refused_iff uri⟩
  · intro bytes
    exact decodeFrom_httpUriEncode fun c mem => (bytes c mem).1
  · intro bytes
    exact ⟨plainKeys_of_readBack bytes, readBack_of_plainKeys bytes⟩

def single (key value : Str) : Query where
  kv := [(key, value)]
  distinct := List.nodup_singleton key

theorem uri_query_iff_single :
    httpUriDecode (httpUriEncode "a b".toList false) = .ok "a b".toList ∧
      (ReadBack (single "k".toList "a&b".toList) ↔
        PlainKeys (single "k".toList "a&b".toList)) := by
  obtain ⟨text, query, -⟩ :=
    uri_query_iff "a b".toList false (single "k".toList "a&b".toList) []
  constructor
  · exact text (by rw [← List.all_iff_forall_prop]; decide)
  · apply query
    intro pair mem
    rw [List.mem_singleton.mp mem, ← List.all_iff_forall_prop]
    decide

/-- A key with a separator is read as two parts, and a sign is taken for a digit. -/
theorem uri_query_fails :
    ¬ ReadBack (single "a=b".toList "c".toList) ∧ Malformed "%+5".toList ∧
      ¬ Refused "%+5".toList := by
  refine ⟨?_, ⟨"+5".toList, ?_, ?_⟩, ?_⟩
  · rintro ⟨text, rendered, again, read, -⟩
    have text' : httpQueryRender (some (single "a=b".toList "c".toList)) false =
        some "a=b=c".toList := rfl
    have refused : httpQueryNewStr "a=b=c".toList =
        .error (pairError "a=b=c".toList "a=b=c".toList) := rfl
    rw [text'] at rendered
    cases rendered
    rw [refused] at read
    cases read
  · decide
  · rintro ⟨a, b, same, high, -⟩
    cases same
    revert high
    decide
  · rintro ⟨e, error, -⟩
    have accepted : httpUriDecode "%+5".toList = .ok ['\x05'] := rfl
    rw [accepted] at error
    cases error

end Whole

end HttpQuery
