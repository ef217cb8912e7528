import Mathlib.Data.List.Basic
import Backrest.FuelLoop
import Backrest.Text

/-!
# Removing a path from S3

The objects below the path are listed page by page, where a page names the token the next
one is got with. Each object is added to a delete request, which is sent when it is full.
The response to a delete request is read when the next one is due, or at the end.
-/

namespace S3Remove

open Text FuelLoop

/-! ## The listing -/

structure ListQuery where
  /-- The delimiter keeps the listing from going below the prefix. -/
  delimiter : Bool
  listPrefix : Str
  deriving DecidableEq

/-- The response to a list request. -/
structure ListBucketResult (τ : Type) where
  nextContinuationToken : Option τ
  commonPrefixes : List Str
  contents : List Str

inductive StorageType
  | file
  | path
  deriving DecidableEq

structure StorageInfo where
  type : StorageType
  name : Str

section List

variable {τ δ ε : Type} (list : ListQuery → Option τ → ListBucketResult τ)

/-- The path without the initial `/`, and with one at the end. -/
def basePrefix (path : Str) : Str := if path.length = 1 then [] else path.drop 1 ++ ['/']

/-- The names of a page, with the base prefix stripped off. -/
def pageInfo (base : Str) (page : ListBucketResult τ) : List StorageInfo :=
  page.commonPrefixes.map (fun name =>
      ⟨.path, strSubN name base.length (name.length - base.length - 1)⟩) ++
    page.contents.map fun key => ⟨.file, if base ≠ [] then key.drop base.length else key⟩

/-- One round of the loop over the pages. The next page is asked for before the callbacks. -/
def listRound (query : ListQuery) (base : Str) (callback : δ → StorageInfo → Except ε δ)
    (state : Option τ × δ) : Outcome Error ((Option τ × δ) ⊕ Except ε δ) :=
  let page := list query state.1
  match (pageInfo base page).foldlM callback state.2 with
  | .error e => .ok (.inr (.error e))
  | .ok data =>
    match page.nextContinuationToken with
    | some token => .ok (.inl (some token, data))
    | none => .ok (.inr (.ok data))

/-- `expressionPrefix` is the prefix of all names the expression matches, if there is one. -/
def storageS3ListInternal (fuel : Nat) (path : Str) (expressionPrefix : Option Str) (recurse : Bool)
    (callback : δ → StorageInfo → Except ε δ) (data : δ) : Outcome Error (Except ε δ) :=
  let base := basePrefix path
  let queryPrefix := match expressionPrefix with
    | none => base
    | some expressionPrefix => if base = [] then expressionPrefix else base ++ expressionPrefix
  loop (listRound list ⟨!recurse, queryPrefix⟩ base callback) fuel (none, data)

end List

/-! ## The delete requests -/

/-- An error in the response to a delete request. -/
structure DeleteError where
  key : Str
  code : Str
  message : Str
  deriving DecidableEq

def pathRemoveError (error : DeleteError) : Error :=
  ⟨.fileRemoveError, "unable to remove file '".toList ++ error.key ++ "': [".toList ++ error.code ++
    "] ".toList ++ error.message⟩

structure StorageS3PathRemoveData where
  deleteMax : Nat
  path : Str
  /-- Size of the delete request. -/
  size : Nat := 0
  /-- The outstanding delete request, by its place among those that were sent. -/
  request : Option Nat := none
  /-- The keys in the delete request that is built. -/
  xml : Option (List Str) := none
  /-- The delete requests that were sent. -/
  sent : List (List Str) := []
  /-- The delete requests of which the response was looked at. -/
  inspected : List Nat := []
  deriving DecidableEq

section Remove

-- the errors in the response to each delete request
variable (answer : Nat → List DeleteError)

/-- What was done is kept when an error is thrown. -/
abbrev Removed := Except (Error × StorageS3PathRemoveData) StorageS3PathRemoveData

/-- Get response for async request. -/
def inspectResponse (data : StorageS3PathRemoveData) : Removed :=
  match data.request with
  | none => .ok data
  | some request =>
    let data := { data with inspected := data.inspected ++ [request], request := none }
    match answer request with
    | [] => .ok data
    | error :: _ => .error (pathRemoveError error, data)

/-- Send new async request if there is more to remove. -/
def sendRequest (data : StorageS3PathRemoveData) : StorageS3PathRemoveData :=
  match data.xml with
  | some xml => { data with request := some data.sent.length, sent := data.sent ++ [xml] }
  | none => data

def storageS3PathRemoveInternal (data : StorageS3PathRemoveData) : Removed :=
  (inspectResponse answer data).map sendRequest

def storageS3PathRemoveCallback (data : StorageS3PathRemoveData) (info : StorageInfo) : Removed :=
  -- Only delete files since paths don't really exist
  if info.type = .file then
    let data := { data with
      xml := some (data.xml.getD [] ++ [data.path ++ info.name]), size := data.size + 1 }
    -- Delete list when it is full
    if data.size = data.deleteMax then
      (storageS3PathRemoveInternal answer data).map fun data => { data with xml := none, size := 0 }
    else .ok data
  else .ok data

/-- What is left after the listing: the delete request that is not full, and the last response. -/
def removeRest (data : StorageS3PathRemoveData) : Removed := do
  let data ← if data.xml.isSome then storageS3PathRemoveInternal answer data else .ok data
  storageS3PathRemoveInternal answer { data with xml := none }

def storageS3PathRemove {τ : Type} (list : ListQuery → Option τ → ListBucketResult τ)
    (deleteMax fuel : Nat) (path : Str) : Outcome Error Removed :=
  let data : StorageS3PathRemoveData :=
    { deleteMax, path := if path = ['/'] then [] else path.drop 1 ++ ['/'] }
  (storageS3ListInternal list fuel path none true (storageS3PathRemoveCallback answer) data).bind
    fun data => .ok (data.bind (removeRest answer))

end Remove

/-! ## What is requested -/

section Callback

variable {answer : Nat → List DeleteError} {deleteMax : Nat} {path : Str} {done : List Str}
  {data : StorageS3PathRemoveData}

/-- The requests sent hold a key each and no more than the batch size. -/
def Batched (deleteMax : Nat) (sent : List (List Str)) : Prop :=
  ∀ batch ∈ sent, batch ≠ [] ∧ batch.length ≤ deleteMax

/-- The keys were requested or are in the request that is built. All responses but that to the
last request were looked at, and report no error. -/
structure Collected (answer : Nat → List DeleteError) (deleteMax : Nat) (path : Str)
    (done : List Str) (data : StorageS3PathRemoveData) : Prop where
  isMax : data.deleteMax = deleteMax
  isPath : data.path = path
  batched : Batched deleteMax data.sent
  keys : data.sent.flatten ++ data.xml.getD [] = done
  size : data.size = (data.xml.getD []).length
  room : data.size < deleteMax
  notEmpty : data.xml ≠ some []
  request : data.request = if data.sent = [] then none else some (data.sent.length - 1)
  inspected : data.inspected = List.range (data.sent.length - 1)
  clean : ∀ i ∈ data.inspected, answer i = []

/-- An error was reported in the response to the last request. -/
structure Stopped (answer : Nat → List DeleteError) (deleteMax : Nat) (done : List Str)
    (stop : Error × StorageS3PathRemoveData) : Prop where
  batched : Batched deleteMax stop.2.sent
  keys : stop.2.sent.flatten <+: done
  sent : stop.2.sent ≠ []
  inspected : stop.2.inspected = List.range stop.2.sent.length
  clean : ∀ i < stop.2.sent.length - 1, answer i = []
  reported : ∃ error rest, answer (stop.2.sent.length - 1) = error :: rest ∧
    stop.1 = pathRemoveError error

/-- A result is either that of all keys or that of an error. -/
def Spec (P : StorageS3PathRemoveData → Prop) (Q : Error × StorageS3PathRemoveData → Prop) :
    Removed → Prop
  | .ok data => P data
  | .error stop => Q stop

theorem Stopped.mono {stop : Error × StorageS3PathRemoveData}
    (stopped : Stopped answer deleteMax done stop) (more : List Str) :
    Stopped answer deleteMax (done ++ more) stop :=
  { stopped with keys := stopped.keys.trans (List.prefix_append done more) }

/-- All responses were looked at. -/
structure Settled (answer : Nat → List DeleteError) (deleteMax : Nat) (done : List Str)
    (data : StorageS3PathRemoveData) : Prop where
  batched : Batched deleteMax data.sent
  keys : data.sent.flatten = done
  inspected : data.inspected = List.range data.sent.length
  clean : ∀ i < data.sent.length, answer i = []

theorem inspectResponse_spec {requested : List Str}
    (batched : Batched deleteMax data.sent) (keys : data.sent.flatten <+: requested)
    (request : data.request = if data.sent = [] then none else some (data.sent.length - 1))
    (inspected : data.inspected = List.range (data.sent.length - 1))
    (clean : ∀ i ∈ data.inspected, answer i = []) :
    Spec (fun next => next = { data with
          inspected := List.range data.sent.length, request := none } ∧
        ∀ i < data.sent.length, answer i = [])
      (Stopped answer deleteMax requested) (inspectResponse answer data) := by
  rw [inspected] at clean
  have early : ∀ i < data.sent.length - 1, answer i = [] :=
    fun i before => clean i (List.mem_range.mpr before)
  by_cases none : data.sent = []
  · rw [if_pos none] at request
    have size : data.sent.length = 0 := by rw [none, List.length_nil]
    rw [inspectResponse, request]
    refine ⟨?_, fun i before => by omega⟩
    rw [size] at inspected ⊢
    rw [← request, ← inspected]
  · rw [if_neg none] at request
    have positive := List.length_pos_iff.mpr none
    have count : data.sent.length - 1 + 1 = data.sent.length := by omega
    have all : data.inspected ++ [data.sent.length - 1] = List.range data.sent.length := by
      rw [inspected, ← List.range_succ, Nat.succ_eq_add_one, count]
    rw [inspectResponse, request]
    simp only [all]
    cases report : answer (data.sent.length - 1) with
    | nil =>
      refine ⟨rfl, fun i before => ?_⟩
      by_cases last : i = data.sent.length - 1
      · rw [last, report]
      · exact early i (by omega)
    | cons error rest =>
      exact ⟨batched, keys, none, rfl, early, error, rest, report, rfl⟩

/-- A request with keys is sent once the last response was looked at. -/
theorem storageS3PathRemoveInternal_send {xml : List Str}
    (batched : Batched deleteMax data.sent)
    (request : data.request = if data.sent = [] then none else some (data.sent.length - 1))
    (inspected : data.inspected = List.range (data.sent.length - 1))
    (clean : ∀ i ∈ data.inspected, answer i = []) (isXml : data.xml = some xml) :
    Spec (fun next => next = { data with
          inspected := List.range data.sent.length, request := some data.sent.length
          sent := data.sent ++ [xml] } ∧ ∀ i < data.sent.length, answer i = [])
      (Stopped answer deleteMax (data.sent.flatten ++ xml))
      (storageS3PathRemoveInternal answer data) := by
  have inspect := inspectResponse_spec batched (List.prefix_append data.sent.flatten xml) request
    inspected clean
  rw [storageS3PathRemoveInternal]
  cases run : inspectResponse answer data with
  | error stop =>
    rw [run] at inspect
    exact inspect
  | ok next =>
    rw [run] at inspect
    obtain ⟨rfl, settled⟩ := inspect
    refine ⟨?_, settled⟩
    rw [sendRequest, isXml]

/-- A file is added to the request that is built, which is sent when it is full. -/
theorem storageS3PathRemoveCallback_file (collected : Collected answer deleteMax path done data)
    (name : Str) :
    Spec (Collected answer deleteMax path (done ++ [path ++ name]))
      (Stopped answer deleteMax (done ++ [path ++ name]))
      (storageS3PathRemoveCallback answer data ⟨.file, name⟩) := by
  have keys : data.sent.flatten ++ (data.xml.getD [] ++ [path ++ name]) = done ++ [path ++ name] := by
    rw [← List.append_assoc, collected.keys]
  have room := collected.room
  have size := collected.size
  have isMax := collected.isMax
  rw [storageS3PathRemoveCallback, if_pos rfl]
  by_cases full : data.size + 1 = data.deleteMax
  · have send := @storageS3PathRemoveInternal_send answer deleteMax { data with
      xml := some (data.xml.getD [] ++ [data.path ++ name]), size := data.size + 1 } _
      collected.batched collected.request collected.inspected collected.clean rfl
    simp only [full, if_true] at send ⊢
    rw [collected.isPath] at send ⊢
    rw [keys] at send
    cases run : storageS3PathRemoveInternal answer _ with
    | error stop =>
      rw [run] at send
      exact send
    | ok next =>
      rw [run] at send
      obtain ⟨rfl, clean⟩ := send
      refine ⟨isMax, rfl, ?_, ?_, rfl, by show 0 < deleteMax; omega, nofun, ?_, ?_, ?_⟩
      · intro batch mem
        rcases List.mem_append.mp mem with mem | last
        · exact collected.batched batch mem
        · rw [List.mem_singleton.mp last, List.length_append, List.length_singleton]
          exact ⟨by simp, by omega⟩
      · show (data.sent ++ [_]).flatten ++ [] = _
        rw [List.append_nil, List.flatten_append, List.flatten_singleton, keys]
      · simp
      · simp
      · intro i mem
        exact clean i (List.mem_range.mp mem)
  · simp only [full, if_false]
    refine ⟨isMax, collected.isPath, collected.batched, ?_, ?_, ?_, by simp, collected.request,
      collected.inspected, collected.clean⟩
    · rw [collected.isPath]
      exact keys
    · show data.size + 1 = (data.xml.getD [] ++ [_]).length
      rw [List.length_append, List.length_singleton, size]
    · show data.size + 1 < deleteMax
      omega

theorem storageS3PathRemoveCallback_path (name : Str) :
    storageS3PathRemoveCallback answer data ⟨.path, name⟩ = .ok data := rfl

/-- The keys of the files among the names. -/
def fileKeys (path : Str) (infos : List StorageInfo) : List Str :=
  infos.filterMap fun info => if info.type = .file then some (path ++ info.name) else none

theorem callbacks_spec (infos : List StorageInfo)
    (collected : Collected answer deleteMax path done data) :
    Spec (Collected answer deleteMax path (done ++ fileKeys path infos))
      (Stopped answer deleteMax (done ++ fileKeys path infos))
      (infos.foldlM (storageS3PathRemoveCallback answer) data) := by
  induction infos generalizing done data with
  | nil =>
    rw [fileKeys, List.filterMap_nil, List.append_nil]
    exact collected
  | cons info rest ih =>
    rw [List.foldlM_cons]
    cases info with
    | mk type name =>
      cases type with
      | path =>
        rw [storageS3PathRemoveCallback_path]
        exact ih collected
      | file =>
        have step := storageS3PathRemoveCallback_file collected name
        have keys : done ++ fileKeys path (⟨.file, name⟩ :: rest) =
            done ++ [path ++ name] ++ fileKeys path rest := by
          simp [fileKeys]
        rw [keys]
        cases run : storageS3PathRemoveCallback answer data ⟨.file, name⟩ with
        | error stop =>
          rw [run] at step
          exact Stopped.mono step _
        | ok next =>
          rw [run] at step
          exact ih step

/-- What is left is sent, and the response to the last request is looked at. -/
theorem removeRest_spec (collected : Collected answer deleteMax path done data) :
    Spec (Settled answer deleteMax done) (Stopped answer deleteMax done) (removeRest answer data) := by
  have keys := collected.keys
  -- the response to the last request of all
  have last : ∀ next : StorageS3PathRemoveData, Batched deleteMax next.sent →
      next.sent.flatten = done →
      (next.request = if next.sent = [] then none else some (next.sent.length - 1)) →
      next.inspected = List.range (next.sent.length - 1) →
      (∀ i ∈ next.inspected, answer i = []) →
      Spec (Settled answer deleteMax done) (Stopped answer deleteMax done)
        (storageS3PathRemoveInternal answer { next with xml := none }) := by
    intro next batched all request inspected clean
    have inspect := @inspectResponse_spec answer deleteMax { next with xml := none } done batched
      (all ▸ List.prefix_refl _) request inspected clean
    rw [storageS3PathRemoveInternal]
    cases run : inspectResponse answer { next with xml := none } with
    | error stop =>
      rw [run] at inspect
      exact inspect
    | ok final =>
      rw [run] at inspect
      obtain ⟨rfl, settled⟩ := inspect
      exact ⟨batched, all, rfl, settled⟩
  rw [removeRest]
  cases isXml : data.xml with
  | none =>
    rw [isXml, Option.getD_none, List.append_nil] at keys
    exact last data collected.batched keys collected.request collected.inspected collected.clean
  | some xml =>
    have send := storageS3PathRemoveInternal_send collected.batched collected.request
      collected.inspected collected.clean isXml
    rw [isXml, Option.getD_some] at keys
    rw [keys] at send
    have size := collected.size
    rw [isXml, Option.getD_some] at size
    have room := collected.room
    simp only [Option.isSome_some, if_true]
    cases run : storageS3PathRemoveInternal answer data with
    | error stop =>
      rw [run] at send
      exact send
    | ok next =>
      rw [run] at send
      obtain ⟨rfl, clean⟩ := send
      refine last _ ?_ ?_ (by simp) (by simp) fun i mem => clean i (List.mem_range.mp mem)
      · intro batch mem
        rcases List.mem_append.mp mem with mem | isLast
        · exact collected.batched batch mem
        · rw [List.mem_singleton.mp isLast]
          exact ⟨fun none => collected.notEmpty (isXml.trans (congrArg some none)), by omega⟩
      · rw [List.flatten_append, List.flatten_singleton, keys]

end Callback

/-! ## The pages -/

section Pages

variable {τ : Type} {answer : Nat → List DeleteError} {deleteMax : Nat} {done : List Str}
  {data : StorageS3PathRemoveData}

inductive Listing (list : Option τ → ListBucketResult τ) :
    Option τ → List (ListBucketResult τ) → Prop
  | last (token : Option τ) (isLast : (list token).nextContinuationToken = none) :
      Listing list token [list token]
  | more (token : Option τ) (next : τ) (pages : List (ListBucketResult τ))
      (isMore : (list token).nextContinuationToken = some next)
      (rest : Listing list (some next) pages) : Listing list token (list token :: pages)

/-- A bucket and what the service tells of it. The objects with a prefix are listed once each, on
any pages. -/
structure Service (τ : Type) where
  bucket : List Str
  nodup : bucket.Nodup
  list : ListQuery → Option τ → ListBucketResult τ
  pages : ListQuery → List (ListBucketResult τ)
  listing : ∀ query, Listing (list query) none (pages query)
  contents : ∀ query, query.delimiter = false →
    ((pages query).flatMap (·.contents)).Perm (bucket.filter (query.listPrefix.isPrefixOf ·))
  /-- The errors in the response to each delete request. -/
  answer : Nat → List DeleteError

theorem fileKeys_pageInfo {base : Str} {page : ListBucketResult τ}
    (below : ∀ key ∈ page.contents, base <+: key) :
    fileKeys base (pageInfo base page) = page.contents := by
  have paths : (page.commonPrefixes.map fun name => (⟨.path, strSubN name base.length
      (name.length - base.length - 1)⟩ : StorageInfo)).filterMap
        (fun info => if info.type = .file then some (base ++ info.name) else none) = [] := by
    rw [List.filterMap_map, List.filterMap_eq_nil_iff]
    exact fun _ _ => rfl
  rw [fileKeys, pageInfo, List.filterMap_append, paths, List.nil_append, List.filterMap_map]
  have same : ∀ key ∈ page.contents, ((fun info : StorageInfo =>
      if info.type = .file then some (base ++ info.name) else none) ∘
        fun key => ⟨.file, if base ≠ [] then key.drop base.length else key⟩) key = some key := by
    intro key mem
    obtain ⟨name, rfl⟩ := below key mem
    by_cases root : base = []
    · simp [root]
    · simp [root]
  rw [List.filterMap_congr same, List.filterMap_some]

/-- All pages are listed unless an error is thrown on the way. -/
theorem listRound_returns {list : ListQuery → Option τ → ListBucketResult τ} {query : ListQuery}
    {base : Str} {token : Option τ} {pages : List (ListBucketResult τ)}
    (listing : Listing (list query) token pages)
    (below : ∀ key ∈ pages.flatMap (·.contents), base <+: key)
    (collected : Collected answer deleteMax base done data) :
    ∃ result, LoopReturns (fun _ => listRound list query base (storageS3PathRemoveCallback answer))
        (token, data) result ∧
      Spec (Collected answer deleteMax base (done ++ pages.flatMap (·.contents)))
        (Stopped answer deleteMax (done ++ pages.flatMap (·.contents))) result := by
  induction listing generalizing done data with
  | last token isLast =>
    rw [List.flatMap_singleton] at below ⊢
    have page := callbacks_spec (pageInfo base (list query token)) collected
    rw [fileKeys_pageInfo below] at page
    refine ⟨_, .stop (.of_eq fun _ => ?_), page⟩
    rw [listRound]
    cases run : (pageInfo base (list query token)).foldlM (storageS3PathRemoveCallback answer) data with
    | error stop => simp only
    | ok next => simp only [isLast]
  | more token next pages isMore rest ih =>
    rw [List.flatMap_cons] at below ⊢
    have page := callbacks_spec (pageInfo base (list query token)) collected
    rw [fileKeys_pageInfo fun key mem => below key (List.mem_append_left _ mem)] at page
    rw [← List.append_assoc]
    cases run : (pageInfo base (list query token)).foldlM (storageS3PathRemoveCallback answer) data with
    | error stop =>
      rw [run] at page
      refine ⟨.error stop, .stop (.of_eq fun _ => ?_), Stopped.mono page _⟩
      simp only [listRound, run]
    | ok data =>
      rw [run] at page
      obtain ⟨result, loops, all⟩ := ih (fun key mem => below key (List.mem_append_right _ mem)) page
      refine ⟨result, loops.next (.of_eq fun _ => ?_), all⟩
      simp only [listRound, run, isMore]

/-! ## The removal -/

def Below (path key : Str) : Prop := path = ['/'] ∨ ∃ name, '/' :: key = path ++ '/' :: name

/-- What was done in the end, also when an error was thrown. -/
def finalData : Removed → StorageS3PathRemoveData
  | .ok data => data
  | .error stop => stop.2

theorem below_iff (rest key : Str) : Below ('/' :: rest) key ↔ basePrefix ('/' :: rest) <+: key := by
  cases rest with
  | nil => simp [Below, basePrefix]
  | cons c rest =>
    have base : basePrefix ('/' :: c :: rest) = c :: rest ++ ['/'] := by
      rw [basePrefix, if_neg (by simp)]
      rfl
    rw [base, Below]
    constructor
    · rintro (root | ⟨name, same⟩)
      · cases root
      · rw [List.cons_append, List.cons_inj_right] at same
        exact ⟨name, by rw [same]; simp⟩
    · rintro ⟨name, rfl⟩
      exact Or.inr ⟨name, by simp⟩

structure PathRemoved (service : Service τ) (deleteMax : Nat) (path : Str) (result : Removed) :
    Prop where
  batched : ∀ batch ∈ (finalData result).sent, batch ≠ [] ∧ batch.length ≤ deleteMax
  once : (finalData result).sent.flatten.Nodup
  below : ∀ key ∈ (finalData result).sent.flatten, key ∈ service.bucket ∧ Below path key
  inspected : (finalData result).inspected = List.range (finalData result).sent.length
  /-- No error: all the objects below the path are requested. -/
  removed : (∀ i < (finalData result).sent.length, service.answer i = []) →
    (∃ data, result = .ok data) ∧
      ∀ key ∈ service.bucket, Below path key → key ∈ (finalData result).sent.flatten
  /-- The first error is thrown, and nothing is requested after it. -/
  thrown : ∀ i < (finalData result).sent.length, service.answer i ≠ [] →
    i + 1 = (finalData result).sent.length ∧
      ∃ error ∈ service.answer i, ∃ data, result = .error (pathRemoveError error, data)

/-- All the objects below a path are requested once each, unless a response reports an error. -/
theorem storageS3PathRemove_spec (service : Service τ) (deleteMax : Nat) (positive : 0 < deleteMax)
    (rest : Str) :
    ∃ result, Returns (fun fuel => storageS3PathRemove service.answer service.list deleteMax fuel
        ('/' :: rest)) result ∧ PathRemoved service deleteMax ('/' :: rest) result := by
  have isPath : (if '/' :: rest = ['/'] then [] else ('/' :: rest).drop 1 ++ ['/']) =
      basePrefix ('/' :: rest) := by
    cases rest with
    | nil => rfl
    | cons c rest =>
      rw [if_neg (by simp), basePrefix, if_neg (by simp)]
  have listed := service.contents ⟨false, basePrefix ('/' :: rest)⟩ rfl
  have isKey : ∀ key, key ∈ (service.pages ⟨false, basePrefix ('/' :: rest)⟩).flatMap (·.contents) ↔
      key ∈ service.bucket ∧ Below ('/' :: rest) key := by
    intro key
    rw [listed.mem_iff, List.mem_filter, below_iff, List.isPrefixOf_iff_prefix]
  have nodup : ((service.pages ⟨false, basePrefix ('/' :: rest)⟩).flatMap (·.contents)).Nodup :=
    listed.nodup_iff.mpr (service.nodup.filter _)
  have start : Collected service.answer deleteMax (basePrefix ('/' :: rest)) []
      { deleteMax, path := basePrefix ('/' :: rest) } :=
    ⟨rfl, rfl, by simp [Batched], rfl, rfl, positive, nofun, rfl, rfl, by simp⟩
  obtain ⟨result, loops, spec⟩ := listRound_returns (service.listing _)
    (fun key mem => (below_iff rest key).mp ((isKey key).mp mem).2) start
  rw [List.nil_append] at spec
  have returns : Returns (fun fuel => storageS3PathRemove service.answer service.list deleteMax fuel
      ('/' :: rest)) (result.bind (removeRest service.answer)) := by
    simp only [storageS3PathRemove, isPath]
    exact loops.returns.bind (.of_eq fun _ => rfl)
  have final : Spec (Settled service.answer deleteMax
        ((service.pages ⟨false, basePrefix ('/' :: rest)⟩).flatMap (·.contents)))
      (Stopped service.answer deleteMax
        ((service.pages ⟨false, basePrefix ('/' :: rest)⟩).flatMap (·.contents)))
      (result.bind (removeRest service.answer)) := by
    cases result with
    | error stop => exact spec
    | ok data => exact removeRest_spec spec
  refine ⟨_, returns, ?_⟩
  cases isFinal : result.bind (removeRest service.answer) with
  | ok data =>
    rw [isFinal] at final
    have keys := final.keys
    refine ⟨final.batched, keys ▸ nodup, fun key mem => (isKey key).mp (keys ▸ mem),
      final.inspected, fun _ => ⟨⟨data, rfl⟩, fun key mem below => ?_⟩,
      fun i before reported => absurd (final.clean i before) reported⟩
    exact keys ▸ (isKey key).mpr ⟨mem, below⟩
  | error stop =>
    rw [isFinal] at final
    obtain ⟨error, others, report, isError⟩ := final.reported
    have count := List.length_pos_iff.mpr final.sent
    refine ⟨final.batched, nodup.sublist final.keys.sublist,
      fun key mem => (isKey key).mp (final.keys.subset mem), final.inspected, ?_, ?_⟩
    · intro clean
      have none := clean (stop.2.sent.length - 1) (by show _ < stop.2.sent.length; omega)
      rw [report] at none
      cases none
    · intro i before reported
      have last : ¬ i < stop.2.sent.length - 1 := fun early => reported (final.clean i early)
      have inside : i < stop.2.sent.length := before
      have same : i = stop.2.sent.length - 1 := by omega
      refine ⟨by show i + 1 = stop.2.sent.length; omega, error, ?_, stop.2, ?_⟩
      · rw [same, report]
        exact List.mem_cons_self
      · rw [← isError]

end Pages

/-! ## Two pages -/

def threeKeys : List Str := [['a', '/', 'b'], ['a', '/', 'c'], ['a', 'b']]

/-- Each listing has its first object on one page and the others on the next. -/
def twoPages (answer : Nat → List DeleteError) : Service Unit where
  bucket := threeKeys
  nodup := by decide
  list := fun query token =>
    match token with
    | none => ⟨some (), [], (threeKeys.filter (query.listPrefix.isPrefixOf ·)).take 1⟩
    | some () => ⟨none, [], (threeKeys.filter (query.listPrefix.isPrefixOf ·)).drop 1⟩
  pages := fun query =>
    [⟨some (), [], (threeKeys.filter (query.listPrefix.isPrefixOf ·)).take 1⟩,
      ⟨none, [], (threeKeys.filter (query.listPrefix.isPrefixOf ·)).drop 1⟩]
  listing := fun _ => .more none () _ rfl (.last (some ()) rfl)
  contents := fun query _ => by
    rw [List.flatMap_cons, List.flatMap_singleton, List.take_append_drop]
  answer := answer

theorem storageS3PathRemove_twoPages :
    ∃ result, Returns (fun fuel => storageS3PathRemove (twoPages fun _ => []).answer
        (twoPages fun _ => []).list 2 fuel ['/', 'a']) result ∧
      PathRemoved (twoPages fun _ => []) 2 ['/', 'a'] result :=
  storageS3PathRemove_spec (twoPages fun _ => []) 2 (by decide) ['a']

def deniedError : DeleteError := ⟨['a', '/', 'b'], "AccessDenied".toList, "Access Denied".toList⟩

/-- The first object cannot be deleted, so the second is not requested. -/
theorem storageS3PathRemove_denied :
    ¬ ∀ (service : Service Unit) (deleteMax : Nat), 0 < deleteMax → ∀ (rest : Str) (result : Removed),
      Returns (fun fuel => storageS3PathRemove service.answer service.list deleteMax fuel
        ('/' :: rest)) result →
      ∀ key ∈ service.bucket, Below ('/' :: rest) key → key ∈ (finalData result).sent.flatten := by
  intro claim
  have mono : Mono (fun fuel => storageS3PathRemove (twoPages fun _ => [deniedError]).answer
      (twoPages fun _ => [deniedError]).list 1 fuel ['/', 'a']) := by
    refine Mono.bind ?_ fun _ => .const _
    exact @Mono.loop _ _ _ (fun _ => listRound _ _ _ _) (fun _ => .const _) _
  have run : storageS3PathRemove (twoPages fun _ => [deniedError]).answer
      (twoPages fun _ => [deniedError]).list 1 5 ['/', 'a'] =
      .ok (.error (pathRemoveError deniedError, {
        deleteMax := 1, path := ['a', '/'], size := 1, xml := some [['a', '/', 'c']]
        sent := [[['a', '/', 'b']]], inspected := [0] })) := rfl
  have all := claim _ 1 (by decide) ['a'] _ (mono.returns run) ['a', '/', 'c'] (by decide)
    (Or.inr ⟨['c'], rfl⟩)
  exact absurd all (by decide)

end S3Remove
