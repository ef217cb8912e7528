import Mathlib.Data.List.Dedup
import Mathlib.Data.List.Nodup
import Mathlib.Data.List.Perm.Basic
import Backrest.Text

/-!
# Listing an object store

The names a store holds are reported through a callback, filtered by an
expression and sorted. A store that is asked for names over a network asks only
for those that start like the expression does. When a listing goes down into
paths, each path is asked for in the same way.
-/

namespace StorageList

open Text LexOrder

/-! ## The start of an expression -/

/-- The characters that end the literal start of an expression. -/
def endsPrefix (c : Char) : Bool :=
  c ∈ ['.', '^', '$', '*', '+', '-', '?', '(', '[', '{', ' ', '|', '\\']

/-- Is there another begin anchor? `[^` and `\^` are none. -/
def hasAnchor : Char → Str → Bool
  | _, [] => false
  | before, c :: rest => (c = '^' && before ≠ '[' && before ≠ '\\') || hasAnchor c rest

/-- The fixed characters that an expression with a begin anchor starts with. -/
def regExpPrefix : Option Str → Option Str
  | some ('^' :: body) =>
    let start := body.takeWhile (fun c => !endsPrefix c)
    match start.getLast? with
    | none => none
    | some last =>
      if hasAnchor last (body.dropWhile (fun c => !endsPrefix c)) then none else some start
  | _ => none

/-! ## The store -/

inductive StorageType where
  | file
  | path
  | link
  | special
  deriving DecidableEq

structure StorageInfo where
  name : Str
  type : StorageType
  deriving DecidableEq

/-- The answers of a service that holds objects under keys to a query with a prefix and the
delimiter `/`: pages of common prefixes and of keys. -/
structure Service (keys : List Str) where
  pages : Str → List (List Str × List Str)
  prefixes_nodup : ∀ query, ((pages query).flatMap Prod.fst).Nodup
  mem_prefixes : ∀ query c, c ∈ (pages query).flatMap Prod.fst ↔
    ∃ r rest, '/' ∉ r ∧ query ++ r ++ '/' :: rest ∈ keys ∧ c = query ++ r ++ ['/']
  contents_nodup : ∀ query, ((pages query).flatMap Prod.snd).Nodup
  mem_contents : ∀ query key, key ∈ (pages query).flatMap Prod.snd ↔
    ∃ r, '/' ∉ r ∧ key = query ++ r ∧ key ∈ keys

/-- The prefix of the keys below a path. -/
def basePrefix (path : Str) : Str :=
  if path.length = 1 then [] else path.drop 1 ++ ['/']

def queryPrefix (path : Str) (expression : Option Str) : Str :=
  match regExpPrefix expression with
  | none => basePrefix path
  | some expressionPrefix =>
    if (basePrefix path).isEmpty then expressionPrefix else basePrefix path ++ expressionPrefix

/-- `storageS3ListInternal` without recursion. -/
def storageS3ListInternal {keys : List Str} (service : Service keys) (path : Str)
    (expression : Option Str) : List StorageInfo :=
  let base := basePrefix path
  (service.pages (queryPrefix path expression)).flatMap fun page =>
    page.1.map (fun name => ⟨strSubN name base.length (name.length - base.length - 1), .path⟩) ++
      page.2.map (fun name => ⟨if base.isEmpty then name else name.drop base.length, .file⟩)

/-! ## The listing -/

/-- How a driver lists a path when it is given an expression. -/
abbrev Driver := Str → Option Str → List StorageInfo

/-- No order means that the driver's order is kept. -/
def storageInfoListSort (driver : Driver) (path : Str) (expression : Option Str)
    (sortOrder : Option SortOrder) : List StorageInfo :=
  match sortOrder with
  | none => driver path expression
  | some .asc => sortBy (fun info => info.name) (driver path expression)
  | some .desc => (sortBy (fun info => info.name) (driver path expression)).reverse

structure ListData where
  expression : Option Str
  recurse : Bool
  sortOrder : Option SortOrder
  path : Str

/-- The name of an entry relative to the path that is listed. -/
def fullName : Option Str → Str → Str
  | none, name => name
  | some sub, name => sub ++ '/' :: name

def isMatch (regExpMatch : Str → Str → Bool) (data : ListData) (name : Str) : Bool :=
  match data.expression with
  | none => true
  | some expression => regExpMatch expression name

def storageInfoListCallback (driver : Driver) (regExpMatch : Str → Str → Bool) (data : ListData) :
    Nat → Option Str → StorageInfo → Option (List StorageInfo)
  | 0, _, _ => none
  | fuel + 1, subPath, info =>
    let dotPath : Bool := info.type = .path && info.name = ['.']
    -- the path itself was reported by its parent
    if dotPath && subPath.isSome then some []
    else
      let name := fullName subPath info.name
      let called : List StorageInfo := if isMatch regExpMatch data name then [⟨name, info.type⟩] else []
      if info.type = .path && data.recurse && !dotPath then
        match (storageInfoListSort driver (data.path ++ '/' :: name) data.expression data.sortOrder).mapM
            (storageInfoListCallback driver regExpMatch data fuel (some name)) with
        | none => none
        | some below =>
          if data.sortOrder = some .desc then some (below.flatten ++ called)
          else some (called ++ below.flatten)
      else some called

def storageInfoList (fuel : Nat) (driver : Driver) (regExpMatch : Str → Str → Bool)
    (data : ListData) : Option (List StorageInfo) :=
  if data.expression.isSome || data.recurse then
    ((storageInfoListSort driver data.path data.expression data.sortOrder).mapM
      (storageInfoListCallback driver regExpMatch data fuel none)).map List.flatten
  else some (storageInfoListSort driver data.path none data.sortOrder)

/-! ## What a listing shows -/

/-- Something stands under this name below the prefix. -/
def Below (keys : List Str) (base : Str) (info : StorageInfo) : Prop :=
  match info.type with
  | .file => base ++ info.name ∈ keys
  | .path => ∃ rest, base ++ info.name ++ '/' :: rest ∈ keys
  | _ => False

/-- Each name that starts with the prefix and then has no slash is listed once. -/
structure Shows (keys : List Str) (base start : Str) (infoList : List StorageInfo) : Prop where
  nodup : infoList.Nodup
  mem : ∀ info, info ∈ infoList ↔
    (∃ r, '/' ∉ r ∧ info.name = start ++ r) ∧ Below keys base info

theorem queryPrefix_eq (path : Str) (expression : Option Str) :
    queryPrefix path expression = basePrefix path ++ (regExpPrefix expression).getD [] := by
  unfold queryPrefix
  cases regExpPrefix expression with
  | none => simp
  | some start =>
    cases basePrefix path with
    | nil => rfl
    | cons c base => rfl

theorem strip_path {base start r : Str} :
    strSubN (base ++ start ++ r ++ ['/']) base.length
      ((base ++ start ++ r ++ ['/']).length - base.length - 1) = start ++ r := by
  have size : (base ++ start ++ r ++ ['/']).length - base.length - 1 = (start ++ r).length := by
    simp only [List.length_append, List.length_singleton]
    omega
  have shape : base ++ start ++ r ++ ['/'] = base ++ (start ++ r ++ ['/']) := by simp
  rw [strSubN, size, shape, List.drop_left, List.take_left]

theorem strip_file {base start r : Str} :
    (if base.isEmpty then base ++ start ++ r else (base ++ start ++ r).drop base.length) =
      start ++ r := by
  cases base with
  | nil => rfl
  | cons c base => simp

section Store
variable {keys : List Str} (service : Service keys) (path : Str) (expression : Option Str)

theorem s3_perm : (storageS3ListInternal service path expression).Perm
    (((service.pages (queryPrefix path expression)).flatMap Prod.fst).map
        (fun name => ⟨strSubN name (basePrefix path).length
          (name.length - (basePrefix path).length - 1), .path⟩) ++
      ((service.pages (queryPrefix path expression)).flatMap Prod.snd).map
        (fun name => ⟨if (basePrefix path).isEmpty then name else
          name.drop (basePrefix path).length, .file⟩)) := by
  rw [List.map_flatMap, List.map_flatMap]
  exact (List.flatMap_append_perm _ _ _).symm

theorem s3_shows : Shows keys (basePrefix path) ((regExpPrefix expression).getD [])
    (storageS3ListInternal service path expression) := by
  have perm := s3_perm service path expression
  have prefixes := service.mem_prefixes (queryPrefix path expression)
  have contents := service.mem_contents (queryPrefix path expression)
  rw [queryPrefix_eq] at prefixes contents
  constructor
  · rw [perm.nodup_iff, List.nodup_append']
    refine ⟨?_, ?_, ?_⟩
    · apply List.Nodup.map_on _ (service.prefixes_nodup _)
      intro c mem c' mem' same
      rw [queryPrefix_eq] at mem mem'
      obtain ⟨r, rest, -, -, rfl⟩ := (prefixes c).mp mem
      obtain ⟨r', rest', -, -, rfl⟩ := (prefixes c').mp mem'
      have stripped := (StorageInfo.mk.inj same).1
      rw [strip_path, strip_path] at stripped
      rw [List.append_cancel_left stripped]
    · apply List.Nodup.map_on _ (service.contents_nodup _)
      intro c mem c' mem' same
      rw [queryPrefix_eq] at mem mem'
      obtain ⟨r, -, rfl, -⟩ := (contents c).mp mem
      obtain ⟨r', -, rfl, -⟩ := (contents c').mp mem'
      have stripped := (StorageInfo.mk.inj same).1
      rw [strip_file, strip_file] at stripped
      rw [List.append_cancel_left stripped]
    · intro info memPath memFile
      obtain ⟨c, -, rfl⟩ := List.mem_map.mp memPath
      obtain ⟨c', -, same⟩ := List.mem_map.mp memFile
      exact absurd (StorageInfo.mk.inj same).2 (by decide)
  · intro info
    rw [perm.mem_iff, List.mem_append, List.mem_map, List.mem_map, queryPrefix_eq]
    constructor
    · rintro (⟨c, mem, rfl⟩ | ⟨c, mem, rfl⟩)
      · obtain ⟨r, rest, noSlash, inKeys, rfl⟩ := (prefixes c).mp mem
        rw [strip_path]
        refine ⟨⟨r, noSlash, rfl⟩, rest, ?_⟩
        rwa [← List.append_assoc (basePrefix path)]
      · obtain ⟨r, noSlash, rfl, inKeys⟩ := (contents c).mp mem
        rw [strip_file]
        refine ⟨⟨r, noSlash, rfl⟩, ?_⟩
        rwa [List.append_assoc] at inKeys
    · rintro ⟨⟨r, noSlash, isName⟩, below⟩
      obtain ⟨name, type⟩ := info
      obtain rfl : name = _ := isName
      cases type with
      | path =>
        obtain ⟨rest, inKeys⟩ := below
        left
        refine ⟨_, (prefixes _).mpr ⟨r, rest, noSlash, ?_, rfl⟩, ?_⟩
        · rwa [List.append_assoc (basePrefix path)]
        · rw [strip_path]
      | file =>
        right
        refine ⟨_, (contents _).mpr ⟨r, noSlash, rfl, ?_⟩, ?_⟩
        · rw [List.append_assoc]
          exact below
        · rw [strip_file]
      | _ => exact absurd below (by simp [Below])

end Store

/-! ## Going down -/

/-- A name that is reached by listing one path after the other: each listing gives a name
that starts with the prefix. -/
inductive Made (start : Str) : Str → Prop
  | piece {r : Str} (noSlash : '/' ∉ r) : Made start (start ++ r)
  | more {r m : Str} (noSlash : '/' ∉ r) (made : Made start m) : Made start (start ++ r ++ '/' :: m)

/-- The end of a name, or something below it. -/
def Ends (t : Str) : Prop := t = [] ∨ ∃ m, t = '/' :: m

theorem first_part_unique {r s t u : Str} (noSlash : '/' ∉ r) (noSlash' : '/' ∉ s) (ends : Ends t)
    (ends' : Ends u) (same : r ++ t = s ++ u) : r = s ∧ t = u := by
  induction r generalizing s with
  | nil =>
    cases s with
    | nil => exact ⟨rfl, same⟩
    | cons c s =>
      rcases ends with rfl | ⟨m, rfl⟩
      · simp at same
      · obtain ⟨rfl, -⟩ := List.cons.inj same
        exact absurd List.mem_cons_self noSlash'
  | cons c r ih =>
    cases s with
    | nil =>
      rcases ends' with rfl | ⟨m, rfl⟩
      · simp at same
      · obtain ⟨rfl, -⟩ := List.cons.inj same
        exact absurd List.mem_cons_self noSlash
    | cons d s =>
      obtain ⟨rfl, tails⟩ := List.cons.inj same
      obtain ⟨rfl, rest⟩ := ih (fun mem => noSlash (List.mem_cons_of_mem _ mem))
        (fun mem => noSlash' (List.mem_cons_of_mem _ mem)) tails
      exact ⟨rfl, rest⟩

theorem mapM_some {α β : Type} {f : α → Option (List β)} {items : List α}
    (all : ∀ item ∈ items, (f item).isSome) :
    items.mapM f = some (items.map fun item => (f item).getD []) := by
  induction items with
  | nil => rfl
  | cons item items ih =>
    obtain ⟨found, isFound⟩ := Option.isSome_iff_exists.mp (all item List.mem_cons_self)
    rw [List.mapM_cons, ih (fun other mem => all other (List.mem_cons_of_mem _ mem))]
    simp [isFound]

section Walk
variable {keys : List Str} {base start : Str} {driver : Driver} {regExpMatch : Str → Str → Bool}
  {data : ListData} {deep : Bool}

theorem sort_perm (path : Str) (expression : Option Str) (sortOrder : Option SortOrder) :
    (storageInfoListSort driver path expression sortOrder).Perm (driver path expression) := by
  unfold storageInfoListSort
  split
  · rfl
  · exact sortBy_perm _ _
  · exact (List.reverse_perm _).trans (sortBy_perm _ _)

theorem Shows.perm {infoList other : List StorageInfo} (shows : Shows keys base start infoList)
    (perm : other.Perm infoList) : Shows keys base start other :=
  ⟨perm.nodup_iff.mpr shows.nodup, fun info => perm.mem_iff.trans (shows.mem info)⟩

/-- The names a listing reaches from one path: below it only when it goes down. -/
def Reached (start : Str) (down : Bool) (name : Str) : Prop :=
  if down then Made start name else ∃ r, '/' ∉ r ∧ name = start ++ r

structure Called (keys : List Str) (base start : Str) (isMatch : Str → Bool) (down : Bool)
    (info : StorageInfo) (called : List StorageInfo) : Prop where
  nodup : called.Nodup
  mem : ∀ n, n ∈ called ↔ isMatch n.name = true ∧ Below keys base n ∧
    (n = info ∨ info.type = .path ∧ down = true ∧ ∃ m, Made start m ∧ n.name = info.name ++ '/' :: m)

structure Listed (keys : List Str) (base start : Str) (isMatch : Str → Bool) (down : Bool)
    (above : Str) (called : List StorageInfo) : Prop where
  nodup : called.Nodup
  mem : ∀ n, n ∈ called ↔ isMatch n.name = true ∧ Below keys base n ∧
    ∃ m, Reached start down m ∧ n.name = above ++ m

theorem below_append {above name : Str} {type : StorageType} :
    Below keys (base ++ above) ⟨name, type⟩ ↔ Below keys base ⟨above ++ name, type⟩ := by
  cases type <;> simp [Below]

theorem Below.parent {name m : Str} {type : StorageType}
    (below : Below keys base ⟨name ++ '/' :: m, type⟩) : Below keys base ⟨name, .path⟩ := by
  cases type with
  | file => exact ⟨m, by simpa [Below] using below⟩
  | path =>
    obtain ⟨rest, inKeys⟩ := below
    exact ⟨m ++ '/' :: rest, by simpa using inKeys⟩
  | _ => exact absurd below (by simp [Below])

/-- What is below the names of one listing is what is below the path. -/
theorem listed_of_called {keep : Str → Bool} {above : Str} {infoList : List StorageInfo}
    (shows : Shows keys (base ++ above) start infoList) {called : StorageInfo → List StorageInfo}
    (each : ∀ info ∈ infoList,
      Called keys base start keep deep ⟨above ++ info.name, info.type⟩ (called info)) :
    Listed keys base start keep deep above (infoList.flatMap called) := by
  have startsWith : ∀ info ∈ infoList, ∀ n ∈ called info, ∃ r t, '/' ∉ r ∧ Ends t ∧
      info.name = start ++ r ∧ n.name = above ++ start ++ r ++ t ∧
      info.type = if t = [] then n.type else .path := by
    intro info mem n memN
    obtain ⟨⟨r, noSlash, isName⟩, -⟩ := (shows.mem info).mp mem
    obtain ⟨-, -, here | ⟨isPath, -, m, -, below⟩⟩ := ((each info mem).mem n).mp memN
    · refine ⟨r, [], noSlash, .inl rfl, isName, ?_, by rw [here, if_pos rfl]⟩
      rw [here, isName, List.append_nil, List.append_assoc]
    · refine ⟨r, '/' :: m, noSlash, .inr ⟨m, rfl⟩, isName, ?_, by rw [if_neg (by simp)]; exact isPath⟩
      rw [below, isName]
      simp
  constructor
  · rw [List.nodup_flatMap]
    refine ⟨fun info mem => (each info mem).nodup, ?_⟩
    apply List.Nodup.pairwise_of_forall_ne shows.nodup
    intro info mem info' mem' different n memN memN'
    obtain ⟨r, t, noSlash, ends, isName, place, isType⟩ := startsWith info mem n memN
    obtain ⟨r', t', noSlash', ends', isName', place', isType'⟩ := startsWith info' mem' n memN'
    rw [place, List.append_assoc (above ++ start), List.append_assoc (above ++ start)] at place'
    obtain ⟨rfl, rfl⟩ := first_part_unique noSlash noSlash' ends ends' (List.append_cancel_left place')
    apply different
    obtain ⟨name, type⟩ := info
    obtain ⟨name', type'⟩ := info'
    cases isName
    cases isName'
    cases isType
    cases isType'
    rfl
  · intro n
    rw [List.mem_flatMap]
    constructor
    · rintro ⟨info, mem, memN⟩
      obtain ⟨⟨r, noSlash, isName⟩, -⟩ := (shows.mem info).mp mem
      obtain ⟨matches_, below, place⟩ := ((each info mem).mem n).mp memN
      refine ⟨matches_, below, ?_⟩
      rcases place with here | ⟨-, down, m, made, isDeeper⟩
      · refine ⟨start ++ r, ?_, by rw [here, isName]⟩
        unfold Reached
        split
        · exact .piece noSlash
        · exact ⟨r, noSlash, rfl⟩
      · refine ⟨start ++ r ++ '/' :: m, ?_, by rw [isDeeper, isName]; simp⟩
        rw [Reached, if_pos down]
        exact .more noSlash made
    · rintro ⟨matches_, below, m, reached, isName⟩
      obtain ⟨name, type⟩ := n
      obtain rfl : name = above ++ m := isName
      have direct : ∀ r, '/' ∉ r → m = start ++ r →
          ∃ info ∈ infoList, ⟨above ++ m, type⟩ ∈ called info := by
        rintro r noSlash rfl
        have mem : ⟨start ++ r, type⟩ ∈ infoList :=
          (shows.mem _).mpr ⟨⟨r, noSlash, rfl⟩, below_append.mpr below⟩
        exact ⟨_, mem, ((each _ mem).mem _).mpr ⟨matches_, below, .inl rfl⟩⟩
      unfold Reached at reached
      split at reached
      · rename_i down
        cases reached with
        | piece noSlash => exact direct _ noSlash rfl
        | @more r m noSlash made =>
          have isDeeper : above ++ (start ++ r ++ '/' :: m) = above ++ (start ++ r) ++ '/' :: m := by
            simp
          have mem : ⟨start ++ r, .path⟩ ∈ infoList := by
            refine (shows.mem _).mpr ⟨⟨r, noSlash, rfl⟩, below_append.mpr ?_⟩
            rw [isDeeper] at below
            exact below.parent
          exact ⟨_, mem, ((each _ mem).mem _).mpr ⟨matches_, below, .inr ⟨rfl, down, m, made, isDeeper⟩⟩⟩
      · obtain ⟨r, noSlash, isName⟩ := reached
        exact direct r noSlash isName

structure Descends (keys : List Str) (base start : Str) (driver : Driver) (data : ListData)
    (deep : Bool) : Prop where
  shows : deep = true → ∀ name, Shows keys (base ++ (name ++ ['/'])) start
    (driver (data.path ++ '/' :: name) data.expression)
  blind : deep = false → ∀ name, Below keys base ⟨name, .path⟩ →
    driver (data.path ++ '/' :: name) data.expression = []

/-- No path is named `.`. -/
def NoDot (keys : List Str) (base : Str) : Prop :=
  ∀ subPath, ¬ Below keys base ⟨fullName subPath ['.'], .path⟩

theorem called_of_below {keep : Str → Bool} {info : StorageInfo} {down : Bool}
    {below called : List StorageInfo} (here : Below keys base info) (isPath : info.type = .path)
    (listed : down = true → Listed keys base start keep true (info.name ++ ['/']) below)
    (blind : down = false → below = [])
    (perm : called.Perm ((if keep info.name then [info] else []) ++ below)) :
    Called keys base start keep down info called := by
  have memBelow : ∀ n, n ∈ below ↔ keep n.name = true ∧ Below keys base n ∧ down = true ∧
      ∃ m, Made start m ∧ n.name = info.name ++ '/' :: m := by
    intro n
    cases isDown : down with
    | false => simp [blind isDown]
    | true =>
      rw [(listed isDown).mem]
      simp [Reached]
  have nodupBelow : below.Nodup := by
    cases isDown : down with
    | false => simp [blind isDown]
    | true => exact (listed isDown).nodup
  constructor
  · rw [perm.nodup_iff, List.nodup_append']
    refine ⟨by split <;> simp, nodupBelow, ?_⟩
    intro n memHere memBelow'
    obtain ⟨-, -, -, m, -, isName⟩ := (memBelow n).mp memBelow'
    obtain rfl : n = info := by
      split at memHere
      · exact List.mem_singleton.mp memHere
      · exact absurd memHere List.not_mem_nil
    exact absurd isName (by simp)
  · intro n
    rw [perm.mem_iff, List.mem_append, memBelow]
    constructor
    · rintro (memHere | ⟨matches_, isBelow, isDown, made⟩)
      · split at memHere
        · rename_i matches_
          obtain rfl := List.mem_singleton.mp memHere
          exact ⟨matches_, here, .inl rfl⟩
        · exact absurd memHere List.not_mem_nil
      · exact ⟨matches_, isBelow, .inr ⟨isPath, isDown, made⟩⟩
    · rintro ⟨matches_, isBelow, rfl | ⟨-, isDown, made⟩⟩
      · left
        rw [if_pos matches_]
        exact List.mem_singleton_self _
      · exact .inr ⟨matches_, isBelow, isDown, made⟩

theorem called_alone {keep : Str → Bool} {info : StorageInfo} {down : Bool}
    (here : Below keys base info) (stays : info.type ≠ .path ∨ down = false) :
    Called keys base start keep down info (if keep info.name then [info] else []) := by
  constructor
  · split <;> simp
  · intro n
    split
    · rename_i matches_
      rw [List.mem_singleton]
      constructor
      · rintro rfl
        exact ⟨matches_, here, .inl rfl⟩
      · rintro ⟨-, -, same | ⟨isPath, isDown, -⟩⟩
        · exact same
        · rcases stays with notPath | notDown
          · exact absurd isPath notPath
          · rw [notDown] at isDown
            exact absurd isDown (by decide)
    · rename_i noMatch
      simp only [List.not_mem_nil, false_iff]
      rintro ⟨matches_, -, rfl | ⟨isPath, isDown, -⟩⟩
      · exact noMatch matches_
      · rcases stays with notPath | notDown
        · exact absurd isPath notPath
        · rw [notDown] at isDown
          exact absurd isDown (by decide)

theorem Below.length_le {bound : Nat} (within : ∀ key ∈ keys, key.length ≤ bound) {info : StorageInfo}
    (below : Below keys base info) : info.name.length ≤ bound := by
  obtain ⟨name, type⟩ := info
  cases type with
  | file =>
    have short := within _ below
    rw [List.length_append] at short
    exact Nat.le_of_add_left_le short
  | path =>
    obtain ⟨rest, inKeys⟩ := below
    have short := within _ inKeys
    simp only [List.length_append] at short ⊢
    omega
  | _ => exact absurd below (by simp [Below])

theorem storageInfoListCallback_called {bound : Nat} (within : ∀ key ∈ keys, key.length ≤ bound)
    (noDot : NoDot keys base) (descends : Descends keys base start driver data deep) (fuel : Nat) :
    ∀ subPath info, Below keys base ⟨fullName subPath info.name, info.type⟩ →
      bound < fuel + (fullName subPath info.name).length →
      ∃ called, storageInfoListCallback driver regExpMatch data fuel subPath info = some called ∧
        Called keys base start (isMatch regExpMatch data) (data.recurse && deep)
          ⟨fullName subPath info.name, info.type⟩ called := by
  induction fuel with
  | zero =>
    intro subPath info below enough
    have short := below.length_le within
    simp only at short
    omega
  | succ fuel ih =>
    intro subPath info below enough
    have notDot : (decide (info.type = .path) && decide (info.name = ['.'])) = false := by
      rw [Bool.and_eq_false_iff, decide_eq_false_iff_not, decide_eq_false_iff_not]
      by_cases isPath : info.type = .path
      · right
        intro isDot
        rw [isPath, isDot] at below
        exact noDot subPath below
      · exact .inl isPath
    simp only [storageInfoListCallback, notDot, Bool.false_and, Bool.false_eq_true, if_false,
      Bool.not_false, Bool.and_true]
    by_cases enters : info.type = .path ∧ data.recurse = true
    · obtain ⟨isPath, recurse⟩ := enters
      simp only [isPath, recurse, decide_true, Bool.and_self, if_true, Bool.true_and]
      rw [isPath] at below
      have perm := @sort_perm driver (data.path ++ '/' :: fullName subPath info.name)
        data.expression data.sortOrder
      generalize storageInfoListSort driver (data.path ++ '/' :: fullName subPath info.name)
        data.expression data.sortOrder = infoList at perm
      have each : deep = true → ∀ item ∈ infoList,
          ∃ called, storageInfoListCallback driver regExpMatch data fuel
              (some (fullName subPath info.name)) item = some called ∧
            Called keys base start (isMatch regExpMatch data) true
              ⟨fullName subPath info.name ++ ['/'] ++ item.name, item.type⟩ called := by
        intro isDeep item mem
        have isBelow := (((descends.shows isDeep _).perm perm).mem item).mp mem |>.2
        rw [below_append] at isBelow
        have same : fullName (some (fullName subPath info.name)) item.name =
            fullName subPath info.name ++ ['/'] ++ item.name := by simp [fullName]
        obtain ⟨called, ran, isCalled⟩ := ih (some (fullName subPath info.name)) item
          (by rwa [same]) (by
            rw [same, List.length_append, List.length_append, List.length_singleton]
            omega)
        rw [recurse, isDeep, same] at isCalled
        exact ⟨called, ran, isCalled⟩
      have all : ∀ item ∈ infoList, (storageInfoListCallback driver regExpMatch data fuel
          (some (fullName subPath info.name)) item).isSome := by
        intro item mem
        cases isDeep : deep with
        | false =>
          rw [descends.blind isDeep _ below] at perm
          rw [perm.eq_nil] at mem
          exact absurd mem List.not_mem_nil
        | true =>
          obtain ⟨called, ran, -⟩ := each isDeep item mem
          rw [ran]
          rfl
      rw [mapM_some all]
      simp only
      have listed : deep = true → Listed keys base start (isMatch regExpMatch data) true
          (fullName subPath info.name ++ ['/']) (infoList.map fun item =>
            (storageInfoListCallback driver regExpMatch data fuel
              (some (fullName subPath info.name)) item).getD []).flatten := by
        intro isDeep
        have shows := (descends.shows isDeep (fullName subPath info.name)).perm perm
        rw [← List.flatMap_def]
        apply listed_of_called shows
        intro item mem
        obtain ⟨called, ran, isCalled⟩ := each isDeep item mem
        rw [ran]
        exact isCalled
      have blind : deep = false → (infoList.map fun item =>
            (storageInfoListCallback driver regExpMatch data fuel
              (some (fullName subPath info.name)) item).getD []).flatten = [] := by
        intro isBlind
        rw [descends.blind isBlind _ below] at perm
        rw [perm.eq_nil]
        rfl
      split
      · exact ⟨_, rfl, called_of_below below rfl listed blind List.perm_append_comm⟩
      · exact ⟨_, rfl, called_of_below below rfl listed blind (List.Perm.refl _)⟩
    · have stays : (decide (info.type = .path) && data.recurse) = false := by
        rw [Bool.and_eq_false_iff, decide_eq_false_iff_not]
        by_cases isPath : info.type = .path
        · exact .inr (by simpa using fun recurse => enters ⟨isPath, recurse⟩)
        · exact .inl isPath
      simp only [stays, Bool.false_eq_true, if_false]
      refine ⟨_, rfl, called_alone below ?_⟩
      by_cases isPath : info.type = .path
      · right
        have noRecurse : data.recurse = false := by simpa using fun recurse => enters ⟨isPath, recurse⟩
        rw [noRecurse]
        rfl
      · exact .inl isPath

theorem storageInfoList_listed {bound fuel : Nat} (within : ∀ key ∈ keys, key.length ≤ bound)
    (enough : bound < fuel) (noDot : NoDot keys base)
    (shows : Shows keys base start (driver data.path data.expression))
    (descends : Descends keys base start driver data deep) :
    ∃ called, storageInfoList fuel driver regExpMatch data = some called ∧
      Listed keys base start (isMatch regExpMatch data) (data.recurse && deep) [] called := by
  have perm := @sort_perm driver data.path data.expression data.sortOrder
  have showsSorted := shows.perm perm
  unfold storageInfoList
  split
  · have each : ∀ item ∈ storageInfoListSort driver data.path data.expression data.sortOrder,
        ∃ called, storageInfoListCallback driver regExpMatch data fuel none item = some called ∧
          Called keys base start (isMatch regExpMatch data) (data.recurse && deep)
            ⟨[] ++ item.name, item.type⟩ called := by
      intro item mem
      exact storageInfoListCallback_called within noDot descends fuel none item
        ((showsSorted.mem item).mp mem).2 (by omega)
    rw [mapM_some (by
      intro item mem
      obtain ⟨called, ran, -⟩ := each item mem
      rw [ran]
      rfl)]
    refine ⟨_, rfl, ?_⟩
    rw [← List.flatMap_def]
    apply listed_of_called (by rwa [List.append_nil])
    intro item mem
    obtain ⟨called, ran, isCalled⟩ := each item mem
    rw [ran]
    exact isCalled
  · rename_i plain
    rw [Bool.not_eq_true, Bool.or_eq_false_iff] at plain
    obtain ⟨noExpression, noRecurse⟩ := plain
    have isNone : data.expression = none := by simpa using noExpression
    rw [isNone] at showsSorted
    refine ⟨_, rfl, showsSorted.nodup, ?_⟩
    intro n
    rw [showsSorted.mem, noRecurse]
    simp only [isMatch, isNone, true_and, Reached, Bool.false_and, Bool.false_eq_true, if_false,
      List.nil_append]
    constructor
    · rintro ⟨⟨r, noSlash, isName⟩, below⟩
      exact ⟨below, _, ⟨r, noSlash, rfl⟩, isName⟩
    · rintro ⟨below, m, ⟨r, noSlash, rfl⟩, isName⟩
      exact ⟨⟨r, noSlash, isName⟩, below⟩

end Walk

/-! ## Two drivers -/

/-- Without a prefix every name is reached. -/
theorem made_nil (name : Str) : Made [] name := by
  induction size : name.length using Nat.strongRecOn generalizing name with
  | _ size ih =>
    by_cases slash : '/' ∈ name
    · obtain ⟨r, m, rfl, noSlash⟩ := List.eq_append_cons_of_mem slash
      exact .more noSlash (ih m.length (by subst size; simp; omega) m rfl)
    · exact .piece slash

structure Plain (keys : List Str) (path : Str) (driver : Driver) : Prop where
  top : ∀ expression, Shows keys (basePrefix path) [] (driver path expression)
  below : ∀ name expression, Shows keys (basePrefix path ++ (name ++ ['/'])) []
    (driver (path ++ '/' :: name) expression)

/-- The keys are names of files: no part of them is empty or a dot. -/
def FileNames (keys : List Str) : Prop :=
  ∀ key ∈ keys, ∀ part ∈ strLstNewSplit '/' key, part ≠ [] ∧ part ≠ ['.']

section Compare
variable {keys : List Str} {path : Str}

theorem FileNames.not_slash (named : FileNames keys) (rest : Str) : '/' :: rest ∉ keys := by
  intro mem
  exact (named _ mem [] (by simp [strLstNewSplit])).1 rfl

theorem basePrefix_cases (path : Str) : basePrefix path = [] ∨ ∃ before, basePrefix path = before ++ ['/'] := by
  unfold basePrefix
  split
  · exact .inl rfl
  · exact .inr ⟨_, rfl⟩

theorem FileNames.noDot (named : FileNames keys) (path : Str) : NoDot keys (basePrefix path) := by
  rintro subPath ⟨rest, mem⟩
  -- the dot stands at the start or after a slash
  have shape : ∃ before, basePrefix path ++ fullName subPath ['.'] ++ '/' :: rest =
      before ++ '/' :: (['.'] ++ '/' :: rest) ∨
      basePrefix path ++ fullName subPath ['.'] ++ '/' :: rest = ['.'] ++ '/' :: rest := by
    cases subPath with
    | some sub => exact ⟨basePrefix path ++ sub, .inl (by simp [fullName])⟩
    | none =>
      rcases basePrefix_cases path with empty | ⟨before, isPrefix⟩
      · exact ⟨[], .inr (by rw [empty]; rfl)⟩
      · exact ⟨before, .inl (by rw [isPrefix]; simp [fullName])⟩
  have isPart : ['.'] ∈ strLstNewSplit '/' (basePrefix path ++ fullName subPath ['.'] ++ '/' :: rest) := by
    obtain ⟨before, shape | shape⟩ := shape
    · rw [shape, strLstNewSplit_concat, strLstNewSplit_concat]
      simp [strLstNewSplit]
    · rw [shape, strLstNewSplit_concat]
      simp [strLstNewSplit]
  exact (named _ mem _ isPart).2 rfl

theorem s3_descends (named : FileNames keys) (service : Service keys) (data : ListData)
    (absolute : ∃ rest, data.path = '/' :: rest) :
    Descends keys (basePrefix data.path) ((regExpPrefix data.expression).getD [])
      (storageS3ListInternal service) data (data.path.length ≠ 1) := by
  obtain ⟨rest, isPath⟩ := absolute
  constructor
  · intro deep name
    have long : data.path.length ≠ 1 := by simpa using deep
    have same : basePrefix (data.path ++ '/' :: name) = basePrefix data.path ++ (name ++ ['/']) := by
      rw [basePrefix, basePrefix, if_neg long, if_neg (by rw [isPath]; simp), isPath]
      simp
    rw [← same]
    exact s3_shows service _ _
  · intro blind name _
    have root : data.path.length = 1 := by simpa using blind
    have shows := s3_shows service (data.path ++ '/' :: name) data.expression
    have slash : ∃ more, basePrefix (data.path ++ '/' :: name) = '/' :: more := by
      refine ⟨name ++ ['/'], ?_⟩
      rw [basePrefix, if_neg (by rw [List.length_append, root]; simp)]
      rw [isPath] at root ⊢
      have nil : rest = [] := by simpa using root
      rw [nil]
      rfl
    obtain ⟨more, slash⟩ := slash
    apply List.eq_nil_iff_forall_not_mem.mpr
    intro info mem
    have below := ((shows.mem info).mp mem).2
    obtain ⟨name, type⟩ := info
    rw [slash] at below
    cases type with
    | file => exact named.not_slash _ below
    | path =>
      obtain ⟨rest, inKeys⟩ := below
      exact named.not_slash _ inKeys
    | link => exact below
    | special => exact below

theorem Plain.descends {driver : Driver} {data : ListData} (plain : Plain keys data.path driver) :
    Descends keys (basePrefix data.path) [] driver data true :=
  ⟨fun _ name => plain.below name _, fun absurd' => absurd absurd' (by decide)⟩

/-- The store that asks by prefix gives the same names as a driver that gives all, each once,
exactly if what matches is asked for at every level. -/
theorem storageInfoList_same_iff (named : FileNames keys) (service : Service keys) {other : Driver}
    {data : ListData} (absolute : ∃ rest, data.path = '/' :: rest)
    (plain : Plain keys data.path other) (regExpMatch : Str → Str → Bool) :
    ∃ enough, ∀ fuel, enough ≤ fuel → ∃ shown all,
      storageInfoList fuel (storageS3ListInternal service) regExpMatch data = some shown ∧
      storageInfoList fuel other regExpMatch data = some all ∧ all.Nodup ∧
      (∀ info, info ∈ all ↔ isMatch regExpMatch data info.name = true ∧
        Below keys (basePrefix data.path) info ∧ (data.recurse = true ∨ '/' ∉ info.name)) ∧
      (shown.Perm all ↔ ∀ info, Below keys (basePrefix data.path) info →
        isMatch regExpMatch data info.name = true →
        ((data.recurse = true ∨ '/' ∉ info.name) ↔ Reached ((regExpPrefix data.expression).getD [])
          (data.recurse && data.path.length ≠ 1) info.name)) := by
  obtain ⟨bound, within⟩ : ∃ bound, ∀ key ∈ keys, key.length ≤ bound :=
    ⟨keys.flatten.length, fun key mem => (List.sublist_flatten_of_mem mem).length_le⟩
  refine ⟨bound + 1, fun fuel enough => ?_⟩
  obtain ⟨shown, ran, listed⟩ := @storageInfoList_listed keys (basePrefix data.path) _ _ regExpMatch _ _
    bound fuel within (by omega) (named.noDot _) (s3_shows service _ _) (s3_descends named service data absolute)
  obtain ⟨all, ranAll, listedAll⟩ := @storageInfoList_listed keys (basePrefix data.path) _ _ regExpMatch
    _ _ bound fuel within (by omega) (named.noDot _) (plain.top _) plain.descends
  have memAll : ∀ info, info ∈ all ↔ isMatch regExpMatch data info.name = true ∧
      Below keys (basePrefix data.path) info ∧ (data.recurse = true ∨ '/' ∉ info.name) := by
    intro info
    rw [listedAll.mem]
    have scope : (∃ m, Reached [] (data.recurse && true) m ∧ info.name = [] ++ m) ↔
        (data.recurse = true ∨ '/' ∉ info.name) := by
      cases data.recurse with
      | true => simp [Reached, made_nil]
      | false => simp [Reached]
    rw [scope]
  refine ⟨shown, all, ran, ranAll, listedAll.nodup, memAll, ?_⟩
  rw [List.perm_ext_iff_of_nodup listed.nodup listedAll.nodup]
  constructor
  · intro same info below matches_
    have here := same info
    rw [listed.mem, memAll] at here
    simpa [below, matches_] using here.symm
  · intro reached info
    rw [listed.mem, memAll]
    constructor
    · rintro ⟨matches_, below, m, isReached, isName⟩
      rw [List.nil_append] at isName
      exact ⟨matches_, below, (reached info below matches_).mpr (by rwa [isName])⟩
    · rintro ⟨matches_, below, scope⟩
      exact ⟨matches_, below, info.name, (reached info below matches_).mp scope, rfl⟩

end Compare

/-! ## A store with two levels -/

section Small

def group (query key : Str) : Str := query ++ (key.drop query.length).takeWhile (· ≠ '/')

theorem takeWhile_first {r rest : Str} (noSlash : '/' ∉ r) :
    (r ++ '/' :: rest).takeWhile (· ≠ '/') = r := by
  have inside : ∀ c ∈ r, decide (c ≠ '/') = true := by
    intro c mem
    rw [decide_eq_true_eq]
    rintro rfl
    exact noSlash mem
  rw [List.takeWhile_append_of_pos inside]
  simp

/-- A service that answers on one page. -/
def onePage (keys : List Str) (query : Str) : List (List Str × List Str) :=
  [((keys.filter (fun key => query.isPrefixOf key && '/' ∈ key.drop query.length)).map
      (fun key => group query key ++ ['/']) |>.dedup,
    keys.filter (fun key => query.isPrefixOf key && !('/' ∈ key.drop query.length : Bool)))]

def onePageService (keys : List Str) (nodup : keys.Nodup) : Service keys where
  pages := onePage keys
  prefixes_nodup query := by simpa [onePage] using List.nodup_dedup _
  mem_prefixes query c := by
    simp only [onePage, List.flatMap_cons, List.flatMap_nil, List.append_nil, List.mem_dedup,
      List.mem_map, List.mem_filter, Bool.and_eq_true, decide_eq_true_eq, List.isPrefixOf_iff_prefix]
    constructor
    · rintro ⟨key, ⟨mem, ⟨tail, rfl⟩, slash⟩, rfl⟩
      rw [List.drop_left] at slash
      obtain ⟨r, rest, rfl, noSlash⟩ := List.eq_append_cons_of_mem slash
      refine ⟨r, rest, noSlash, by rwa [List.append_assoc], ?_⟩
      rw [group, List.drop_left, takeWhile_first noSlash]
    · rintro ⟨r, rest, noSlash, mem, rfl⟩
      rw [List.append_assoc] at mem
      refine ⟨_, ⟨mem, List.prefix_append _ _, by simp⟩, ?_⟩
      rw [group, List.drop_left, takeWhile_first noSlash]
  contents_nodup query := by simpa [onePage] using nodup.filter _
  mem_contents query key := by
    simp only [onePage, List.flatMap_cons, List.flatMap_nil, List.append_nil, List.mem_filter,
      Bool.and_eq_true, List.isPrefixOf_iff_prefix, Bool.not_eq_true', decide_eq_false_iff_not]
    constructor
    · rintro ⟨mem, ⟨tail, rfl⟩, noSlash⟩
      rw [List.drop_left] at noSlash
      exact ⟨tail, noSlash, rfl, mem⟩
    · rintro ⟨r, noSlash, rfl, mem⟩
      exact ⟨mem, List.prefix_append _ _, by rwa [List.drop_left]⟩

def repoKeys : List Str := ["repo/base/file".toList]

def repoService : Service repoKeys := onePageService repoKeys (by decide)

/-- The store when it ignores the expression. -/
def repoPlain : Driver := fun path _ => storageS3ListInternal repoService path none

/-- How an expression that is a begin anchor and plain characters matches. -/
def plainMatch : Str → Str → Bool
  | '^' :: body, name => body.isPrefixOf name
  | _, _ => false

def repoData : ListData := ⟨some "^base".toList, true, some .asc, "/repo".toList⟩

theorem repoPlain_plain : Plain repoKeys "/repo".toList repoPlain := by
  refine ⟨fun _ => s3_shows repoService _ none, fun name _ => ?_⟩
  have same : basePrefix ("/repo".toList ++ '/' :: name) =
      basePrefix "/repo".toList ++ (name ++ ['/']) := by
    rw [basePrefix, if_neg (by simp)]
    rfl
  rw [← same]
  exact s3_shows repoService _ none

theorem repoKeys_fileNames : FileNames repoKeys := by
  unfold FileNames
  decide

/-- The file is not found since its own name does not start like the expression. -/
theorem storageInfoList_misses_below :
    FileNames repoKeys ∧ Plain repoKeys repoData.path repoPlain ∧ ∃ shown all,
      storageInfoList 20 (storageS3ListInternal repoService) plainMatch repoData = some shown ∧
      storageInfoList 20 repoPlain plainMatch repoData = some all ∧
      ⟨"base/file".toList, .file⟩ ∈ all ∧ ⟨"base/file".toList, .file⟩ ∉ shown ∧ ¬ shown.Perm all := by
  refine ⟨repoKeys_fileNames, repoPlain_plain, [⟨"base".toList, .path⟩],
    [⟨"base".toList, .path⟩, ⟨"base/file".toList, .file⟩], by decide +kernel, by decide +kernel,
    by decide, by decide, ?_⟩
  intro perm
  exact absurd perm.length_eq (by decide)

/-- Without going down the prefix does no harm here. -/
theorem storageInfoList_same_top :
    ∃ enough, ∀ fuel, enough ≤ fuel → ∃ shown all,
      storageInfoList fuel (storageS3ListInternal repoService) plainMatch
        { repoData with recurse := false } = some shown ∧
      storageInfoList fuel repoPlain plainMatch { repoData with recurse := false } = some all ∧
      shown.Perm all := by
  obtain ⟨enough, holds⟩ := @storageInfoList_same_iff repoKeys repoKeys_fileNames repoService repoPlain
    { repoData with recurse := false } ⟨"repo".toList, rfl⟩ repoPlain_plain plainMatch
  refine ⟨enough, fun fuel le => ?_⟩
  obtain ⟨shown, all, ran, ranAll, -, -, same⟩ := holds fuel le
  refine ⟨shown, all, ran, ranAll, same.mpr ?_⟩
  intro info _ matches_
  have isPrefix : "base".toList <+: info.name := List.isPrefixOf_iff_prefix.mp matches_
  obtain ⟨r, isName⟩ := isPrefix
  have start : (regExpPrefix (some "^base".toList)).getD [] = "base".toList := by decide
  change (false = true ∨ '/' ∉ info.name) ↔
    ∃ r, '/' ∉ r ∧ info.name = (regExpPrefix (some "^base".toList)).getD [] ++ r
  rw [start, ← isName]
  have noSlash : '/' ∉ "base".toList := by decide
  constructor
  · rintro (absurd' | outside)
    · exact absurd absurd' (by decide)
    · exact ⟨r, fun mem => outside (List.mem_append_right _ mem), rfl⟩
  · rintro ⟨r', noSlash', same⟩
    obtain rfl := List.append_cancel_left same
    right
    rw [List.mem_append]
    rintro (mem | mem)
    · exact noSlash mem
    · exact noSlash' mem

end Small

end StorageList
