import Backrest.ArchivePushFile

/-!
# Finding a segment in the repositories

A requested file is looked for in all archive ids of all repositories. More than one copy
of a segment is fine as long as the copies have the same checksum, which is read from the
name at a fixed place. This says for which copies the fixed place is the right one.
-/

namespace ArchiveGetFind

open Text BackupCommon Repository ArchivePushFile

/-! ## The code -/

structure ArchiveGetFile where
  file : Str
  repoIdx : Nat
  archiveId : Str
  cipherType : CipherType
  cipherPassArchive : Option Str
  deriving DecidableEq

structure ArchiveFileMap where
  request : Str
  actualList : List ArchiveGetFile
  warnList : List Str
  deriving DecidableEq

structure ArchiveGetCheckResult where
  archiveFileMapList : List ArchiveFileMap
  errorType : Option ErrorType
  errorFile : Option Str
  errorMessage : Option Str
  warnList : List Str
  deriving DecidableEq

/-- The expression for all segments of a directory. -/
def walPathExpression (path name : Str) : Bool :=
  (matchName path name).any fun rest =>
    match ((matchN isWalChar 8 rest).bind (matchChar '-')).bind (matchN isHashChar 40) with
    | some ext => ext = [] ∨ ext ∈ compressExtList
    | none => false

/-- A directory that was listed for an earlier request. -/
structure ArchiveGetFindCachePath where
  path : Str
  fileList : List Str
  matched : ∀ name ∈ fileList, walPathExpression path name = true

/-- An archive id is a version such as `9.6` or `10`, a dash and a number of 32 bits. -/
structure ArchiveGetFindCacheArchive where
  archiveId : Str
  short : archiveId.length ≤ 14
  pathList : List ArchiveGetFindCachePath

structure ArchiveGetFindCacheRepo where
  repoIdx : Nat
  cipherType : CipherType
  cipherPassArchive : Option Str
  archiveList : List ArchiveGetFindCacheArchive
  warnList : List Str

/-- The repositories, where any access can fail. -/
structure Env where
  groupIdxToKey : Nat → Nat
  storageList : Nat → List Str → Except Error (List Str)
  storageExists : Nat → List Str → Except Error Bool

section Code

variable (env : Env) (archiveFileRequest : Str) (single : Bool)

def archiveGetErrorAdd (warnList : List Str) (repoIdx : Nat) (e : Error) : List Str :=
  strLstAddIfMissing warnList
    ("repo".toList ++ fmtUInt (env.groupIdxToKey repoIdx) ++ ": [".toList ++
      errorTypeName e.type ++ "] ".toList ++ e.message)

def segmentPath : Str := strSubN archiveFileRequest 0 16

/-- The listing of a segment's directory, read when it is not in the cache. -/
def cachePathFind (repoIdx : Nat) (archive : ArchiveGetFindCacheArchive) :
    Except Error (List Str × ArchiveGetFindCacheArchive) :=
  match archive.pathList.find? (·.path = segmentPath archiveFileRequest) with
  | some cachePath => .ok (cachePath.fileList, archive)
  | none =>
    match env.storageList repoIdx
        [storageRepoArchive, archive.archiveId, segmentPath archiveFileRequest] with
    | .error e => .error e
    | .ok list =>
      let cachePath : ArchiveGetFindCachePath :=
        ⟨segmentPath archiveFileRequest,
          list.filter (walPathExpression (segmentPath archiveFileRequest)),
          fun _ mem => (List.mem_filter.mp mem).2⟩
      .ok (cachePath.fileList, { archive with pathList := archive.pathList ++ [cachePath] })

/-- The names of a segment's copies. One request alone asks only for these names. -/
def segmentListFind (repoIdx : Nat) (archive : ArchiveGetFindCacheArchive) :
    Except Error (List Str × ArchiveGetFindCacheArchive) :=
  if single = true then
    match env.storageList repoIdx
        [storageRepoArchive, archive.archiveId, segmentPath archiveFileRequest] with
    | .error e => .error e
    | .ok list => .ok (list.filter (walSegmentExpression archiveFileRequest), archive)
  else
    match cachePathFind env archiveFileRequest repoIdx archive with
    | .error e => .error e
    | .ok (fileList, archive) =>
      .ok (fileList.filter (strBeginsWith · archiveFileRequest), archive)

def archiveGetFile (repo : ArchiveGetFindCacheRepo) (archiveId file : Str) : ArchiveGetFile :=
  ⟨archiveId ++ '/' :: file, repo.repoIdx, archiveId, repo.cipherType, repo.cipherPassArchive⟩

def archiveFind (repo : ArchiveGetFindCacheRepo) (archive : ArchiveGetFindCacheArchive) :
    Except Error (List ArchiveGetFile × ArchiveGetFindCacheArchive) :=
  if walIsSegment archiveFileRequest = true then
    match segmentListFind env archiveFileRequest single repo.repoIdx archive with
    | .error e => .error e
    | .ok (segmentList, cached) =>
      .ok (segmentList.map fun segment => archiveGetFile repo archive.archiveId
        (segmentPath archiveFileRequest ++ '/' :: segment), cached)
  else
    match env.storageExists repo.repoIdx
        [storageRepoArchive, archive.archiveId, archiveFileRequest] with
    | .error e => .error e
    | .ok true => .ok ([archiveGetFile repo archive.archiveId archiveFileRequest], archive)
    | .ok false => .ok ([], archive)

structure RepoFound where
  matchList : List ArchiveGetFile
  archiveList : List ArchiveGetFindCacheArchive
  error : Option Error

/-- The archive ids in order. An error ends the repository and keeps what was found. -/
def archiveListFind (repo : ArchiveGetFindCacheRepo) :
    List ArchiveGetFindCacheArchive → RepoFound
  | [] => ⟨[], [], none⟩
  | archive :: rest =>
    match archiveFind env archiveFileRequest single repo archive with
    | .error e => ⟨[], archive :: rest, some e⟩
    | .ok (found, cached) =>
      let later := archiveListFind repo rest
      ⟨found ++ later.matchList, cached :: later.archiveList, later.error⟩

structure Found where
  matchList : List ArchiveGetFile
  cacheRepoList : List ArchiveGetFindCacheRepo
  fileWarnList : List Str
  repoErrorTotal : Nat

def repoFind (found : Found) (repo : ArchiveGetFindCacheRepo) : Found :=
  let inRepo := archiveListFind env archiveFileRequest single repo repo.archiveList
  let cached := { repo with archiveList := inRepo.archiveList }
  match inRepo.error with
  | none =>
    { found with
      matchList     := found.matchList ++ inRepo.matchList
      cacheRepoList := found.cacheRepoList ++ [cached] }
  | some e =>
    { matchList      := found.matchList ++ inRepo.matchList
      cacheRepoList  := found.cacheRepoList ++
        [{ cached with warnList := archiveGetErrorAdd env repo.warnList repo.repoIdx e }]
      fileWarnList   := archiveGetErrorAdd env found.fileWarnList repo.repoIdx e
      repoErrorTotal := found.repoErrorTotal + 1 }

def repoListFind (cacheRepoList : List ArchiveGetFindCacheRepo) (warnList : List Str) : Found :=
  cacheRepoList.foldl (repoFind env archiveFileRequest single) ⟨[], [], warnList, 0⟩

/-- The checksum as it is read from the path of a copy. -/
def hashRead (f : ArchiveGetFile) : Str := strSubN f.file 25 40

def hashList (matchList : List ArchiveGetFile) : List Str :=
  (matchList.map hashRead).foldl strLstAddIfMissing []

structure Listing where
  repoKeyLast : Nat
  message : Str
  first : Bool

def duplicateAdd (listing : Listing) (f : ArchiveGetFile) : Listing :=
  let repoKey := env.groupIdxToKey f.repoIdx
  let listing : Listing :=
    if repoKey ≠ listing.repoKeyLast then
      ⟨repoKey, listing.message ++ "\nrepo".toList ++ fmtUInt repoKey ++ [':'], true⟩
    else listing
  ⟨listing.repoKeyLast,
    (if listing.first = true then listing.message else listing.message ++ [',']) ++
      ' ' :: f.file, false⟩

def duplicateMessage (matchList : List ArchiveGetFile) : Str :=
  "duplicates found for WAL segment ".toList ++ archiveFileRequest ++ ':' ::
    (matchList.foldl (duplicateAdd env) ⟨0, [], true⟩).message ++
    "\nHINT: are multiple primaries archiving to this stanza?".toList

def archiveGetFind (getCheckResult : ArchiveGetCheckResult)
    (cacheRepoList : List ArchiveGetFindCacheRepo) (warnList : List Str) :
    Bool × ArchiveGetCheckResult × List ArchiveGetFindCacheRepo :=
  let found := repoListFind env archiveFileRequest single cacheRepoList warnList
  if found.repoErrorTotal = cacheRepoList.length then
    (false,
      { getCheckResult with
        errorType    := some .repoInvalidError
        errorFile    := some archiveFileRequest
        errorMessage := some "unable to find a valid repository".toList
        warnList     := found.fileWarnList },
      found.cacheRepoList)
  else if found.matchList = [] then (false, getCheckResult, found.cacheRepoList)
  else if walIsSegment archiveFileRequest = true ∧ 1 < found.matchList.length ∧
      1 < (hashList found.matchList).length then
    (false,
      { getCheckResult with
        errorType    := some .archiveDuplicateError
        errorFile    := some archiveFileRequest
        errorMessage := some (duplicateMessage env archiveFileRequest found.matchList)
        warnList     := found.fileWarnList },
      found.cacheRepoList)
  else
    (true,
      { getCheckResult with
        archiveFileMapList := getCheckResult.archiveFileMapList ++
          [⟨archiveFileRequest, found.matchList, found.fileWarnList⟩] },
      found.cacheRepoList)

end Code

/-! ## What a copy is -/

section Copies

variable (env : Env) (archiveFileRequest : Str) (single : Bool)

/-- The checksum in the name of a copy, which starts after the name of the segment. -/
def hash (f : ArchiveGetFile) : Str :=
  strSubN f.file (f.archiveId.length + 18 + archiveFileRequest.length + 1) 40

/-- The segment in the name of a copy. -/
def segment (f : ArchiveGetFile) : Str :=
  strSubN f.file (f.archiveId.length + 18) archiveFileRequest.length

def readable (repo : ArchiveGetFindCacheRepo) (archive : ArchiveGetFindCacheArchive) : Bool :=
  (segmentListFind env archiveFileRequest single repo.repoIdx archive).toBool

def segmentNames (repo : ArchiveGetFindCacheRepo) (archive : ArchiveGetFindCacheArchive) :
    List Str :=
  match segmentListFind env archiveFileRequest single repo.repoIdx archive with
  | .error _ => []
  | .ok (segmentList, _) => segmentList

/-- The copies in one repository, in the archive ids before the first that fails. -/
def copiesIn (repo : ArchiveGetFindCacheRepo) : List ArchiveGetFile :=
  (repo.archiveList.takeWhile (readable env archiveFileRequest single repo)).flatMap
    fun archive => (segmentNames env archiveFileRequest single repo archive).map fun name =>
      archiveGetFile repo archive.archiveId (segmentPath archiveFileRequest ++ '/' :: name)

def copies (cacheRepoList : List ArchiveGetFindCacheRepo) : List ArchiveGetFile :=
  cacheRepoList.flatMap (copiesIn env archiveFileRequest single)

def RepoFails (repo : ArchiveGetFindCacheRepo) : Prop :=
  ∃ archive ∈ repo.archiveList, readable env archiveFileRequest single repo archive = false

/-- Two copies differ. -/
def Differ (list : List ArchiveGetFile) : Prop :=
  ∃ f ∈ list, ∃ g ∈ list, hash archiveFileRequest f ≠ hash archiveFileRequest g

/-- A result that reports differing copies as duplicates and accepts all others. -/
def Reports (list : List ArchiveGetFile) (before after : ArchiveGetCheckResult) : Prop :=
  (after.errorType = some .archiveDuplicateError ↔ Differ archiveFileRequest list) ∧
  (list ≠ [] → ¬ Differ archiveFileRequest list →
    ∃ warnList, after.archiveFileMapList =
      before.archiveFileMapList ++ [⟨archiveFileRequest, list, warnList⟩])

/-- Two copies have their checksums at the same place, after the same name. -/
def SamePlace (f g : ArchiveGetFile) : Prop :=
  f.archiveId.length = g.archiveId.length ∧
    segment archiveFileRequest f = segment archiveFileRequest g

/-- The front of the checksum, all that is read of it. -/
def hashFront (f : ArchiveGetFile) : Str :=
  (hash archiveFileRequest f).take (46 - f.archiveId.length - archiveFileRequest.length)

/-- The place where the checksum is read tells whether copies differ. -/
def PlaceTells (list : List ArchiveGetFile) : Prop :=
  (Differ archiveFileRequest list → ∃ f ∈ list, ∃ g ∈ list,
    ¬ SamePlace archiveFileRequest f g ∨
      hashFront archiveFileRequest f ≠ hashFront archiveFileRequest g) ∧
  (¬ Differ archiveFileRequest list → ∀ f ∈ list, ∀ g ∈ list, SamePlace archiveFileRequest f g)

end Copies

section Names

theorem matchName_plain {name s rest : Str} (plain : '?' ∉ name)
    (matched : rest ∈ matchName name s) :
    ∃ front, s = front ++ rest ∧ List.Forall₂ (fun atom c => atom = '.' ∨ atom = c) name front := by
  induction name generalizing s with
  | nil =>
    rw [matchName, List.mem_singleton] at matched
    exact ⟨[], matched.symm, .nil⟩
  | cons atom name ih =>
    have plainRest : '?' ∉ name := fun mem => plain (List.mem_cons_of_mem _ mem)
    rw [matchName_cons plainRest, List.mem_flatMap] at matched
    obtain ⟨later, mem, matched⟩ := matched
    cases s with
    | nil => cases mem
    | cons c s =>
      rw [matchAtom] at mem
      split at mem
      · rename_i fits
        rw [List.mem_singleton] at mem
        subst mem
        obtain ⟨front, rfl, all⟩ := ih plainRest matched
        exact ⟨c :: front, rfl, .cons fits all⟩
      · cases mem

/-- Characters that are no dots stand for themselves. -/
theorem front_eq_of_no_dot {name front : Str} (noDot : '.' ∉ name)
    (all : List.Forall₂ (fun atom c => atom = '.' ∨ atom = c) name front) : front = name := by
  induction all with
  | nil => rfl
  | cons fits all ih =>
    rcases fits with rfl | rfl
    · exact absurd List.mem_cons_self noDot
    · rw [ih (fun mem => noDot (List.mem_cons_of_mem _ mem))]

theorem isWalChar_ne_dot {c : Char} (isWal : isWalChar c = true) : c ≠ '.' := by
  rintro rfl
  exact absurd isWal (by decide)

theorem isHashChar_ne_dash {c : Char} (isHash : isHashChar c = true) : c ≠ '-' := by
  rintro rfl
  exact absurd isHash (by decide)

/-- The parts of the name of a copy. -/
structure NameShape (request name tail digest ext : Str) : Prop where
  name_eq : name = strSubN request 0 24 ++ tail ++ '-' :: (digest ++ ext)
  size : (strSubN request 0 24 ++ tail).length = request.length
  digestSize : digest.length = 40
  noDash : '-' ∉ digest

theorem digest_shape {rest ext : Str}
    (found : (matchChar '-' rest).bind (matchN isHashChar 40) = some ext) :
    ∃ digest, rest = '-' :: (digest ++ ext) ∧ digest.length = 40 ∧ '-' ∉ digest := by
  obtain ⟨later, dash, hashed⟩ := Option.bind_eq_some_iff.mp found
  obtain ⟨digest, rfl, size, all⟩ := matchN_some hashed
  refine ⟨digest, matchChar_some dash, size, fun mem => ?_⟩
  exact isHashChar_ne_dash (all '-' mem) rfl

variable {request name : Str}

theorem walIsSegment_front (isSegment : walIsSegment request = true) :
    24 ≤ request.length ∧ ∀ c ∈ strSubN request 0 24, isWalChar c = true := by
  obtain ⟨long, matched, -⟩ := walIsSegment_split isSegment
  obtain ⟨rest, matched⟩ := Option.isSome_iff_exists.mp matched
  obtain ⟨front, rfl, size, all⟩ := matchN_some matched
  refine ⟨long, ?_⟩
  rw [strSubN, List.drop_zero, List.take_left' size]
  exact all

theorem walSegmentExpression_shape (isSegment : walIsSegment request = true)
    (plain : '?' ∉ request) (matched : walSegmentExpression request name = true) :
    ∃ tail digest ext, NameShape request name tail digest ext := by
  obtain ⟨-, -, split⟩ := walIsSegment_split isSegment
  obtain ⟨long, all⟩ := walIsSegment_front isSegment
  rw [walSegmentExpression, ← split, List.any_eq_true] at matched
  obtain ⟨rest, mem, matched⟩ := matched
  obtain ⟨front, rfl, fits⟩ := matchName_plain plain mem
  cases found : (matchChar '-' rest).bind (matchN isHashChar 40) with
  | none => rw [found] at matched; cases matched
  | some ext =>
    obtain ⟨digest, rfl, size, noDash⟩ := digest_shape found
    -- the first 24 characters are no dots, so they are those of the request
    have same : front.take 24 = strSubN request 0 24 :=
      front_eq_of_no_dot (fun mem => isWalChar_ne_dot (all '.' mem) rfl) (List.forall₂_take 24 fits)
    have parts : strSubN request 0 24 ++ front.drop 24 = front := by
      rw [← same, List.take_append_drop]
    exact ⟨front.drop 24, digest, ext, by rw [parts], by rw [parts, fits.length_eq], size, noDash⟩

theorem walPathExpression_shape (isSegment : walIsSegment request = true)
    (plain : '?' ∉ request) (matched : walPathExpression (segmentPath request) name = true)
    (begins : strBeginsWith name request = true) :
    ∃ tail digest ext, NameShape request name tail digest ext := by
  obtain ⟨long, all⟩ := walIsSegment_front isSegment
  have path_eq : segmentPath request = (strSubN request 0 24).take 16 := by
    rw [segmentPath, strSubN, strSubN, List.drop_zero, List.take_take]
    rfl
  have pathSize : (segmentPath request).length = 16 := by
    rw [segmentPath, strSubN, List.drop_zero, List.length_take]
    omega
  rw [walPathExpression, List.any_eq_true] at matched
  obtain ⟨rest, mem, matched⟩ := matched
  have plainPath : '?' ∉ segmentPath request := fun mem => plain (List.mem_of_mem_take mem)
  obtain ⟨front, rfl, fits⟩ := matchName_plain plainPath mem
  have same : front = segmentPath request := by
    refine front_eq_of_no_dot (fun mem => ?_) fits
    rw [path_eq] at mem
    exact isWalChar_ne_dot (all '.' (List.mem_of_mem_take mem)) rfl
  subst same
  cases found : ((matchN isWalChar 8 rest).bind (matchChar '-')).bind (matchN isHashChar 40) with
  | none => rw [found] at matched; cases matched
  | some ext =>
    rw [Option.bind_assoc] at found
    obtain ⟨later, number, hashed⟩ := Option.bind_eq_some_iff.mp found
    obtain ⟨eight, rfl, eightSize, -⟩ := matchN_some number
    obtain ⟨digest, rfl, size, noDash⟩ := digest_shape hashed
    obtain ⟨more, begins⟩ := List.isPrefixOf_iff_prefix.mp begins
    obtain ⟨rest, isFront, requestEnd⟩ : ∃ rest, matchN isWalChar 24 request = some rest ∧
        (rest = [] ∨ rest = walSegmentPartialExt) := by
      unfold walIsSegment at isSegment
      split at isSegment
      · exact ⟨_, by assumption, of_decide_eq_true isSegment⟩
      · cases isSegment
    obtain ⟨first, rfl, firstSize, -⟩ := matchN_some isFront
    rw [List.append_assoc, ← List.append_assoc (segmentPath _)] at begins
    obtain ⟨parts, ending⟩ := List.append_inj begins
      (by rw [firstSize, List.length_append, pathSize, eightSize])
    rcases requestEnd with rfl | rfl
    · refine ⟨[], digest, ext, ?_, ?_, size, noDash⟩
      · rw [← List.append_assoc, ← parts, List.append_nil, List.append_nil, strSubN, List.drop_zero,
          List.take_of_length_le firstSize.le]
      · rw [List.append_nil, List.append_nil, strSubN, List.drop_zero,
          List.take_of_length_le firstSize.le]
    · exact absurd (List.cons.inj ending).1 (by decide)

end Names

/-! ## Reading the checksum -/

section Reading

variable {request : Str} {f g : ArchiveGetFile}

structure CopyShape (request : Str) (f : ArchiveGetFile) (tail digest ext : Str) : Prop where
  long : 24 ≤ request.length
  fits : request.length ≤ 32
  short : f.archiveId.length ≤ 14
  file_eq : f.file = f.archiveId ++ '/' :: (segmentPath request ++ '/' ::
    (strSubN request 0 24 ++ tail ++ '-' :: (digest ++ ext)))
  size : (strSubN request 0 24 ++ tail).length = request.length
  digestSize : digest.length = 40
  noDash : '-' ∉ digest

/-- What stands before the segment's name without the archive id. -/
def lead (request : Str) : Str := segmentPath request ++ '/' :: strSubN request 0 24

theorem lead_length (long : 24 ≤ request.length) : (lead request).length = 41 := by
  rw [lead, segmentPath, strSubN, strSubN, List.drop_zero, List.length_append, List.length_cons,
    List.length_take, List.length_take]
  omega

variable {tail digest ext tail' digest' ext' : Str}

section Copy
variable (shape : CopyShape request f tail digest ext)
include shape

theorem CopyShape.file_eq_lead :
    f.file = (f.archiveId ++ ['/']) ++ (lead request ++ tail) ++ '-' :: (digest ++ ext) := by
  rw [shape.file_eq, lead]
  simp only [List.append_assoc, List.cons_append, List.nil_append]

theorem CopyShape.tail_length : tail.length + 24 = request.length := by
  have size := shape.size
  have long := shape.long
  rw [strSubN, List.drop_zero, List.length_append, List.length_take] at size
  omega

theorem CopyShape.front_length : ((f.archiveId ++ ['/']) ++ (lead request ++ tail)).length =
      f.archiveId.length + 18 + request.length := by
  have tailSize := shape.tail_length
  simp only [List.length_append, List.length_singleton, lead_length shape.long]
  omega

theorem CopyShape.hash_eq : hash request f = digest := by
  rw [hash, strSubN, shape.file_eq_lead, ← shape.front_length, ← List.drop_drop, List.drop_left,
    List.drop_one, List.tail_cons, List.take_left' shape.digestSize]

theorem CopyShape.segment_eq : segment request f = strSubN request 0 24 ++ tail := by
  have pathSize : (f.archiveId ++ '/' :: (segmentPath request ++ ['/'])).length =
      f.archiveId.length + 18 := by
    have long := shape.long
    rw [segmentPath, strSubN, List.drop_zero]
    simp only [List.length_append, List.length_cons, List.length_nil, List.length_take]
    omega
  have split : f.file = (f.archiveId ++ '/' :: (segmentPath request ++ ['/'])) ++
      (strSubN request 0 24 ++ tail ++ '-' :: (digest ++ ext)) := by
    rw [shape.file_eq]
    simp only [List.append_assoc, List.cons_append, List.nil_append]
  rw [segment, strSubN, split, ← pathSize, List.drop_left, List.take_left' shape.size]

/-- What is read starts in the name of the segment and ends in the checksum. -/
theorem CopyShape.hashRead_eq :
    hashRead f = (lead request).drop (24 - f.archiveId.length) ++ tail ++
      '-' :: hashFront request f := by
  have tailSize := shape.tail_length
  have leadSize := lead_length shape.long
  have short := shape.short
  have fits := shape.fits
  have digestSize := shape.digestSize
  have skip : ((f.archiveId ++ ['/']) ++ (lead request ++ tail) ++ '-' :: (digest ++ ext)).drop 25 =
      (lead request).drop (24 - f.archiveId.length) ++ tail ++ '-' :: (digest ++ ext) := by
    rw [List.append_assoc, List.drop_append, List.drop_eq_nil_of_le (by simp; omega),
      List.nil_append, List.append_assoc, List.drop_append_of_le_length (by simp; omega),
      List.append_assoc]
    congr 2
    simp only [List.length_append, List.length_singleton]
    omega
  rw [hashRead, strSubN, shape.file_eq_lead, skip, List.take_append, List.take_of_length_le
    (by simp only [List.length_append, List.length_drop]; omega)]
  congr 1
  have rest : 40 - ((lead request).drop (24 - f.archiveId.length) ++ tail).length =
      (46 - f.archiveId.length - request.length) + 1 := by
    simp only [List.length_append, List.length_drop]
    omega
  rw [rest, List.take_succ_cons, hashFront, shape.hash_eq,
    List.take_append_of_le_length (by omega)]

end Copy

theorem last_delimiter_inj {delimiter : Char} {a b s t : Str} (hs : delimiter ∉ s)
    (ht : delimiter ∉ t) (same : a ++ delimiter :: s = b ++ delimiter :: t) : a = b ∧ s = t := by
  have turned := congrArg List.reverse same
  simp only [List.reverse_append, List.reverse_cons, List.append_assoc, List.singleton_append]
    at turned
  obtain ⟨first, second⟩ := append_delimiter_inj (by rwa [List.mem_reverse])
    (by rwa [List.mem_reverse]) turned
  exact ⟨List.reverse_injective second, List.reverse_injective first⟩

theorem CopyShape.dash_not_mem_front (shape : CopyShape request f tail digest ext) :
    '-' ∉ hashFront request f := by
  rw [hashFront, shape.hash_eq]
  exact fun mem => shape.noDash (List.mem_of_mem_take mem)

theorem hashRead_eq_iff (first : CopyShape request f tail digest ext)
    (second : CopyShape request g tail' digest' ext') :
    hashRead f = hashRead g ↔
      SamePlace request f g ∧ hashFront request f = hashFront request g := by
  have tailSize := first.tail_length
  have tailSize' := second.tail_length
  have leadSize := lead_length first.long
  have short := first.short
  have short' := second.short
  rw [first.hashRead_eq, second.hashRead_eq, SamePlace, first.segment_eq, second.segment_eq]
  constructor
  · intro same
    obtain ⟨front, last⟩ := last_delimiter_inj first.dash_not_mem_front second.dash_not_mem_front same
    have size := congrArg List.length front
    simp only [List.length_append, List.length_drop] at size
    have idSize : f.archiveId.length = g.archiveId.length := by omega
    rw [idSize, List.append_cancel_left_eq] at front
    exact ⟨⟨idSize, by rw [front]⟩, last⟩
  · rintro ⟨⟨idSize, place⟩, last⟩
    rw [List.append_cancel_left_eq] at place
    rw [idSize, place, last]

end Reading

/-! ## Every repository -/

section Repositories

variable {env : Env} {request : Str} {single : Bool}

theorem shape_of_segmentNames {repo : ArchiveGetFindCacheRepo}
    {archive : ArchiveGetFindCacheArchive} {name : Str} (isSegment : walIsSegment request = true)
    (plain : '?' ∉ request) (mem : name ∈ segmentNames env request single repo archive) :
    ∃ tail digest ext, NameShape request name tail digest ext := by
  rw [segmentNames, segmentListFind] at mem
  by_cases alone : single = true
  · rw [if_pos alone] at mem
    cases listed : env.storageList repo.repoIdx
        [storageRepoArchive, archive.archiveId, segmentPath request] with
    | error e => simp only [listed, List.not_mem_nil] at mem
    | ok list =>
      simp only [listed] at mem
      exact walSegmentExpression_shape isSegment plain (List.mem_filter.mp mem).2
  · rw [if_neg alone, cachePathFind] at mem
    cases cached : archive.pathList.find? (·.path = segmentPath request) with
    | some cachePath =>
      simp only [cached] at mem
      obtain ⟨mem, begins⟩ := List.mem_filter.mp mem
      have matched := cachePath.matched name mem
      have samePath := List.find?_some cached
      rw [of_decide_eq_true samePath] at matched
      exact walPathExpression_shape isSegment plain matched begins
    | none =>
      cases listed : env.storageList repo.repoIdx
          [storageRepoArchive, archive.archiveId, segmentPath request] with
      | error e => simp only [cached, listed, List.not_mem_nil] at mem
      | ok list =>
        simp only [cached, listed] at mem
        obtain ⟨mem, begins⟩ := List.mem_filter.mp mem
        exact walPathExpression_shape isSegment plain (List.mem_filter.mp mem).2 begins

theorem shape_of_mem {cacheRepoList : List ArchiveGetFindCacheRepo} {f : ArchiveGetFile}
    (isSegment : walIsSegment request = true) (plain : '?' ∉ request)
    (mem : f ∈ copies env request single cacheRepoList) :
    ∃ tail digest ext, CopyShape request f tail digest ext := by
  rw [copies, List.mem_flatMap] at mem
  obtain ⟨repo, -, mem⟩ := mem
  rw [copiesIn, List.mem_flatMap] at mem
  obtain ⟨archive, -, mem⟩ := mem
  obtain ⟨name, isName, rfl⟩ := List.mem_map.mp mem
  obtain ⟨tail, digest, ext, shape⟩ := shape_of_segmentNames isSegment plain isName
  have long := (walIsSegment_front isSegment).1
  have fits : request.length ≤ 32 := by
    obtain ⟨-, -, split⟩ := walIsSegment_split isSegment
    have size := congrArg List.length split
    rw [List.length_append, strSubN, List.drop_zero, List.length_take] at size
    have ending : (if walIsPartial request = true then walSegmentPartialExt else []).length ≤ 8 := by
      split <;> decide
    omega
  refine ⟨tail, digest, ext, long, fits, archive.short, ?_, shape.size, shape.digestSize,
    shape.noDash⟩
  rw [archiveGetFile, shape.name_eq]

theorem archiveFind_segment (isSegment : walIsSegment request = true)
    (repo : ArchiveGetFindCacheRepo) (archive : ArchiveGetFindCacheArchive) :
    (readable env request single repo archive = false ∧
      ∃ e, archiveFind env request single repo archive = .error e) ∨
    (readable env request single repo archive = true ∧
      ∃ cached, archiveFind env request single repo archive =
        .ok ((segmentNames env request single repo archive).map fun name =>
          archiveGetFile repo archive.archiveId (segmentPath request ++ '/' :: name), cached)) := by
  rw [archiveFind, if_pos isSegment, readable, segmentNames]
  cases segmentListFind env request single repo.repoIdx archive with
  | error e => exact .inl ⟨rfl, e, rfl⟩
  | ok found => exact .inr ⟨rfl, found.2, rfl⟩

/-- A repository gives the copies before its first failure. -/
theorem archiveListFind_spec (isSegment : walIsSegment request = true)
    (repo : ArchiveGetFindCacheRepo) (list : List ArchiveGetFindCacheArchive) :
    (archiveListFind env request single repo list).matchList =
      (list.takeWhile (readable env request single repo)).flatMap (fun archive =>
        (segmentNames env request single repo archive).map fun name =>
          archiveGetFile repo archive.archiveId (segmentPath request ++ '/' :: name)) ∧
    ((archiveListFind env request single repo list).error = none ↔
      ∀ archive ∈ list, readable env request single repo archive = true) := by
  induction list with
  | nil => exact ⟨rfl, by simp [archiveListFind]⟩
  | cons archive rest ih =>
    rcases archiveFind_segment isSegment repo archive with ⟨unread, e, failed⟩ | ⟨read, cached, ok⟩
    · rw [archiveListFind, failed, List.takeWhile_cons, unread]
      exact ⟨rfl, by simp [unread]⟩
    · rw [archiveListFind, ok, List.takeWhile_cons, read]
      refine ⟨?_, ?_⟩
      · rw [if_pos rfl, List.flatMap_cons, ← ih.1]
      · simp only [ih.2, List.forall_mem_cons, read, true_and]

theorem repoFails_iff (isSegment : walIsSegment request = true) (repo : ArchiveGetFindCacheRepo) :
    RepoFails env request single repo ↔
      (archiveListFind env request single repo repo.archiveList).error ≠ none := by
  rw [Ne, (archiveListFind_spec isSegment repo repo.archiveList).2, RepoFails]
  simp only [not_forall, Bool.not_eq_true, exists_prop]

/-- All copies are found, and each failing repository is counted. -/
theorem repoListFind_spec (isSegment : walIsSegment request = true)
    (list : List ArchiveGetFindCacheRepo) (found : Found) :
    let after := list.foldl (repoFind env request single) found
    after.matchList = found.matchList ++ copies env request single list ∧
      after.repoErrorTotal ≤ found.repoErrorTotal + list.length ∧
      (after.repoErrorTotal = found.repoErrorTotal + list.length ↔
        ∀ repo ∈ list, RepoFails env request single repo) := by
  induction list generalizing found with
  | nil => simp [copies]
  | cons repo rest ih =>
    have fails := @repoFails_iff env request single isSegment repo
    have inRepo := (@archiveListFind_spec env request single isSegment repo repo.archiveList).1
    obtain ⟨matched, atMost, all⟩ := ih (repoFind env request single found repo)
    have added : (repoFind env request single found repo).matchList =
        found.matchList ++ copiesIn env request single repo := by
      rw [copiesIn, ← inRepo, repoFind]
      cases (archiveListFind env request single repo repo.archiveList).error <;> rfl
    refine ⟨?_, ?_⟩
    · rw [List.foldl_cons, matched, added, copies, copies, List.flatMap_cons, List.append_assoc]
    · rw [List.foldl_cons, List.length_cons, List.forall_mem_cons]
      cases failed : (archiveListFind env request single repo repo.archiveList).error with
      | none =>
        have total : (repoFind env request single found repo).repoErrorTotal =
            found.repoErrorTotal := by
          rw [repoFind, failed]
        rw [total] at atMost all
        rw [failed] at fails
        refine ⟨by omega, ?_⟩
        constructor
        · intro all
          omega
        · rintro ⟨first, -⟩
          exact absurd rfl (fails.mp first)
      | some e =>
        have total : (repoFind env request single found repo).repoErrorTotal =
            found.repoErrorTotal + 1 := by
          rw [repoFind, failed]
        rw [total] at atMost all
        rw [failed] at fails
        refine ⟨by omega, ?_⟩
        rw [← all]
        constructor
        · intro all
          exact ⟨fails.mpr (by simp), by omega⟩
        · rintro ⟨-, all⟩
          omega

/-- More than one checksum was read when two of them differ. -/
theorem one_lt_hashList_iff {list : List ArchiveGetFile} :
    1 < (hashList list).length ↔ ∃ f ∈ list, ∃ g ∈ list, hashRead f ≠ hashRead g := by
  have mem : ∀ f ∈ list, hashRead f ∈ hashList list := by
    intro f isMem
    rw [hashList, mem_foldl_strLstAddIfMissing]
    exact .inr (List.mem_map_of_mem isMem)
  have origin : ∀ r ∈ hashList list, ∃ f ∈ list, hashRead f = r := by
    intro r isMem
    rw [hashList, mem_foldl_strLstAddIfMissing] at isMem
    rcases isMem with isMem | isMem
    · cases isMem
    · exact List.mem_map.mp isMem
  have nodup : (hashList list).Nodup := nodup_foldl_strLstAddIfMissing List.nodup_nil
  constructor
  · intro more
    match found : hashList list, more with
    | a :: b :: rest, _ =>
      obtain ⟨f, hf, rfl⟩ := origin a (by rw [found]; exact List.mem_cons_self)
      obtain ⟨g, hg, rfl⟩ := origin b (by rw [found]; exact List.mem_cons_of_mem _ List.mem_cons_self)
      rw [found, List.nodup_cons, List.mem_cons, not_or] at nodup
      exact ⟨f, hf, g, hg, nodup.1.1⟩
  · rintro ⟨f, hf, g, hg, differ⟩
    match found : hashList list with
    | [] => exact absurd (mem f hf) (by rw [found]; exact List.not_mem_nil)
    | [a] =>
      have first := mem f hf
      have second := mem g hg
      rw [found, List.mem_singleton] at first second
      exact absurd (first.trans second.symm) differ
    | a :: b :: rest => simp

theorem exists_differ_iff {list : List ArchiveGetFile}
    (shapes : ∀ f ∈ list, ∃ tail digest ext, CopyShape request f tail digest ext) :
    (∃ f ∈ list, ∃ g ∈ list, hashRead f ≠ hashRead g) ↔
      ∃ f ∈ list, ∃ g ∈ list, ¬ SamePlace request f g ∨
        hashFront request f ≠ hashFront request g := by
  constructor
  · rintro ⟨f, hf, g, hg, differ⟩
    obtain ⟨_, _, _, first⟩ := shapes f hf
    obtain ⟨_, _, _, second⟩ := shapes g hg
    rw [Ne, hashRead_eq_iff first second, not_and_or] at differ
    exact ⟨f, hf, g, hg, differ⟩
  · rintro ⟨f, hf, g, hg, differ⟩
    obtain ⟨_, _, _, first⟩ := shapes f hf
    obtain ⟨_, _, _, second⟩ := shapes g hg
    refine ⟨f, hf, g, hg, ?_⟩
    rw [Ne, hashRead_eq_iff first second, not_and_or]
    exact differ

/-- Where the place tells, the checksums read differ just when the checksums do. -/
theorem placeTells_iff {list : List ArchiveGetFile}
    (shapes : ∀ f ∈ list, ∃ tail digest ext, CopyShape request f tail digest ext) :
    PlaceTells request list ↔
      (1 < (hashList list).length ↔ Differ request list) := by
  rw [PlaceTells, one_lt_hashList_iff, exists_differ_iff shapes]
  constructor
  · rintro ⟨differ, same⟩
    refine ⟨fun read => ?_, differ⟩
    by_contra equal
    obtain ⟨f, hf, g, hg, place | front⟩ := read
    · exact place (same equal f hf g hg)
    · have hashes : hash request f = hash request g := by
        by_contra ne
        exact equal ⟨f, hf, g, hg, ne⟩
      exact front (by rw [hashFront, hashFront, hashes, (same equal f hf g hg).1])
  · intro tells
    refine ⟨tells.mpr, fun equal f hf g hg => ?_⟩
    by_contra place
    exact equal (tells.mp ⟨f, hf, g, hg, .inl place⟩)

/-- Duplicates are reported and other copies accepted just when a repository could be read
and the place where the checksums are read tells them apart. -/
theorem archiveGetFind_reports_iff (env : Env) (request : Str) (single : Bool)
    (before : ArchiveGetCheckResult) (cacheRepoList : List ArchiveGetFindCacheRepo)
    (warnList : List Str) (isSegment : walIsSegment request = true) (plain : '?' ∉ request)
    (noError : before.errorType = none) :
    Reports request (copies env request single cacheRepoList) before
        (archiveGetFind env request single before cacheRepoList warnList).2.1 ↔
      copies env request single cacheRepoList = [] ∨
        (∃ repo ∈ cacheRepoList, ¬ RepoFails env request single repo) ∧
          PlaceTells request (copies env request single cacheRepoList) := by
  have shapes := fun f => @shape_of_mem env request single cacheRepoList f isSegment plain
  obtain ⟨matched, -, all⟩ := @repoListFind_spec env request single isSegment cacheRepoList
    ⟨[], [], warnList, 0⟩
  rw [← repoListFind, List.nil_append] at matched
  rw [← repoListFind, Nat.zero_add] at all
  rw [placeTells_iff shapes, archiveGetFind, matched]
  generalize copies env request single cacheRepoList = list
  by_cases allFail : ∀ repo ∈ cacheRepoList, RepoFails env request single repo
  · rw [if_pos (all.mpr allFail)]
    have noRepo : ¬ ∃ repo ∈ cacheRepoList, ¬ RepoFails env request single repo := by
      rintro ⟨repo, mem, fine⟩
      exact fine (allFail repo mem)
    constructor
    · rintro ⟨error, accepted⟩
      left
      by_contra some
      have equal : ¬ Differ request list := fun differ => by cases error.mpr differ
      obtain ⟨_, listed⟩ := accepted some equal
      exact absurd (congrArg List.length listed) (by simp)
    · rintro (rfl | ⟨repo, -⟩)
      · refine ⟨⟨(fun error => by cases error), ?_⟩, fun some => absurd rfl some⟩
        rintro ⟨f, mem, -⟩
        cases mem
      · exact absurd repo noRepo
  · rw [if_neg (fun total => allFail (all.mp total))]
    have someRepo : ∃ repo ∈ cacheRepoList, ¬ RepoFails env request single repo := by
      by_contra none
      exact allFail fun repo mem => by_contra fun fine => none ⟨repo, mem, fine⟩
    by_cases empty : list = []
    · subst empty
      rw [if_pos rfl]
      refine ⟨fun _ => .inl rfl, fun _ => ⟨?_, fun some => absurd rfl some⟩⟩
      rw [noError]
      refine ⟨(fun error => by cases error), ?_⟩
      rintro ⟨f, mem, -⟩
      cases mem
    · rw [if_neg empty]
      simp only [empty, someRepo, true_and, false_or]
      by_cases more : 1 < (hashList list).length
      · have two : 1 < list.length := by
          obtain ⟨f, hf, g, hg, differ⟩ := one_lt_hashList_iff.mp more
          match list, hf, hg with
          | [a], hf, hg =>
            rw [List.mem_singleton] at hf hg
            exact absurd (by rw [hf, hg]) differ
          | a :: b :: rest, _, _ => simp
        rw [if_pos ⟨isSegment, two, more⟩]
        constructor
        · rintro ⟨error, -⟩
          exact ⟨fun _ => error.mp rfl, fun _ => more⟩
        · intro tells
          have differ := tells.mp more
          exact ⟨⟨fun _ => differ, fun _ => rfl⟩, fun _ equal => absurd differ equal⟩
      · rw [if_neg (fun fits => more fits.2.2)]
        constructor
        · rintro ⟨error, -⟩
          refine ⟨fun read => absurd read more, fun differ => ?_⟩
          have reported := error.mpr differ
          rw [noError] at reported
          cases reported
        · intro tells
          refine ⟨⟨fun error => ?_, fun differ => absurd (tells.mpr differ) more⟩, fun _ _ => ⟨_, rfl⟩⟩
          rw [noError] at error
          cases error

end Repositories

/-! ## Two repositories with the same segment -/

def walSegment : Str := "000000010000000100000001".toList

def copyName : Str := walSegment ++ '-' :: List.replicate 40 'a'

/-- All archive ids of all repositories have the same copy. -/
def oneCopy : Env where
  groupIdxToKey := (· + 1)
  storageList _ _ := .ok [copyName]
  storageExists _ _ := .ok false

def repoOf (repoIdx : Nat) (archive : ArchiveGetFindCacheArchive) : ArchiveGetFindCacheRepo :=
  ⟨repoIdx, .none, none, [archive], []⟩

def noResult : ArchiveGetCheckResult := ⟨[], none, none, none, []⟩

def twoRepos : List ArchiveGetFindCacheRepo :=
  [repoOf 0 ⟨"9.6-1".toList, by decide, []⟩, repoOf 1 ⟨"9.6-1".toList, by decide, []⟩]

/-- The second repository has had the stanza upgraded more often. -/
def twoIds : List ArchiveGetFindCacheRepo :=
  [repoOf 0 ⟨"9.6-9".toList, by decide, []⟩, repoOf 1 ⟨"9.6-10".toList, by decide, []⟩]

theorem archiveGetFind_reports_iff_two :
    Reports walSegment (copies oneCopy walSegment true twoRepos) noResult
        (archiveGetFind oneCopy walSegment true noResult twoRepos []).2.1 ↔
      copies oneCopy walSegment true twoRepos = [] ∨
        (∃ repo ∈ twoRepos, ¬ RepoFails oneCopy walSegment true repo) ∧
          PlaceTells walSegment (copies oneCopy walSegment true twoRepos) :=
  archiveGetFind_reports_iff oneCopy walSegment true noResult twoRepos [] (by decide) (by decide) rfl

/-- The same copy under ids of different lengths is reported as a duplicate. -/
theorem archiveGetFind_same_copy :
    (∀ f ∈ copies oneCopy walSegment true twoIds, hash walSegment f = List.replicate 40 'a') ∧
      (archiveGetFind oneCopy walSegment true noResult twoIds []).2.1.errorType =
        some .archiveDuplicateError := by
  decide +kernel

end ArchiveGetFind
