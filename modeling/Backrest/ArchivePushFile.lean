import Mathlib.Data.Bool.AllAny
import Backrest.FanOut
import Backrest.BackupManifest
import Backrest.FileTree
import Backrest.Repository

/-!
# Pushing one file to the archives

`archivePushFile` looks for the segment in every repository before it copies
anything. The source is then read once and written to each repository that needs
it; a repository that fails is left out and its error reported at the end. What
fails where, and how the reads cut the source, is open.
-/

namespace ArchivePushFile

open Text BackupCommon BackupManifest FileTree FanOut Repository

abbrev Bytes := List UInt8

/-- The files a repository shows. A file appears when its write is closed. -/
abbrev ArchiveStorage := Tree Str Bytes

structure ArchivePushFileRepoData where
  repoIdx : Nat
  archiveId : Str
  cipherType : CipherType
  cipherPass : Option Str

/-- The errors of the storage of one repository. A close may fail after the file has
its name. -/
structure RepoFault where
  lookupError : Option Error := none
  openError : Option Error := none
  writeError : Nat → Option Error := fun _ => none
  closeError : Option (Error × Bool) := none

structure PgWal where
  version : Nat
  systemId : Nat

/-- The class `[0-f]`. -/
def isHashChar (c : Char) : Bool := decide ('0' ≤ c) && decide (c ≤ 'f')

structure Sha1 where
  hash : Bytes → Str
  size : ∀ content, (hash content).length = 40
  digits : ∀ content, ∀ c ∈ hash content, isHashChar c = true

/-- What the function uses of the system: filters, with those that undo them, storage errors,
and how the reads of the source cut it into buffers. -/
structure Env where
  sha1 : Sha1
  compress : CompressType → Int → Bytes → Bytes
  decompress : CompressType → Bytes → Bytes
  decompress_compress : ∀ type level content, type ≠ .none →
    decompress type (compress type level content) = content
  encrypt : ArchivePushFileRepoData → Bytes → Bytes
  decrypt : CipherType → Option Str → Bytes → Bytes
  decrypt_encrypt : ∀ repoData content, repoData.cipherType ≠ .none →
    decrypt repoData.cipherType repoData.cipherPass (encrypt repoData content) = content
  cut : Bytes → List Bytes
  cut_ne_nil : ∀ content, cut content ≠ []
  cut_flatten : ∀ content, (cut content).flatten = content
  groupIdxToKey : Nat → Nat
  fault : Nat → RepoFault
  walInfo : Except Error PgWal
  source : Except Error Bytes

structure Param where
  walSource : Str
  headerCheck : Bool
  pgVersion : Nat
  pgSystemId : Nat
  archiveFile : Str
  compressType : CompressType
  compressLevel : Int
  repoList : List ArchivePushFileRepoData
  priorErrorList : List Str

/-! ## Finding a segment -/

def walSegmentPartialExt : Str := ".partial".toList

def walIsSegment (walSegment : Str) : Bool :=
  match matchN isWalChar 24 walSegment with
  | some rest => rest = [] ∨ rest = walSegmentPartialExt
  | none => false

def walIsPartial (walSegment : Str) : Bool := walSegmentPartialExt.isSuffixOf walSegment

/-- One character of an expression; a dot stands for any. -/
def matchAtom (atom : Char) : Str → List Str
  | [] => []
  | c :: rest => if atom = '.' ∨ atom = c then [rest] else []

/-- The rests of a string after a name that is read as an expression, where a question
mark makes what stands before it optional. -/
def matchName : Str → Str → List Str
  | [], s => [s]
  | atom :: '?' :: name, s => (matchAtom atom s).flatMap (matchName name) ++ matchName name s
  | atom :: name, s => (matchAtom atom s).flatMap (matchName name)

def compressExtList : List Str :=
  [".gz".toList, ".lz4".toList, ".zst".toList, ".xz".toList, ".bz2".toList]

/-- The expression of `walSegmentFind`. -/
def walSegmentExpression (walSegment name : Str) : Bool :=
  (matchName (strSubN walSegment 0 24 ++
    if walIsPartial walSegment then walSegmentPartialExt else []) name).any fun rest =>
      match (matchChar '-' rest).bind (matchN isHashChar 40) with
      | some ext => ext = [] ∨ ext ∈ compressExtList
      | none => false

/-- The directory of a segment. -/
def walSegmentDir (archiveId walSegment : Str) : List Str :=
  [storageRepoArchive, archiveId, strSubN walSegment 0 16]

/-- `walSegmentFind` without a timeout. -/
def walSegmentFind (fault : RepoFault) (storage : ArchiveStorage) (archiveId walSegment : Str) :
    Except Error (Option Str) :=
  match fault.lookupError with
  | some e => .error e
  | none =>
    match (storage.children (walSegmentDir archiveId walSegment)).filter
        (walSegmentExpression walSegment) with
    | [] => .ok none
    | [file] => .ok (some file)
    | list => .error ⟨.archiveDuplicateError,
        "duplicates found in archive for WAL segment ".toList ++ walSegment ++ ": ".toList ++
        strLstJoin (strLstSort list .asc) ", ".toList ++
        "\nHINT: are multiple primaries archiving to this stanza?".toList⟩

/-- A file of the archive, with the directory of its segment when it starts like one. -/
def storageRepoArchivePath (archiveId file : Str) : List Str :=
  if (matchN isWalChar 24 file).isSome then [storageRepoArchive, archiveId, strSubN file 0 16, file]
  else [storageRepoArchive, archiveId, file]

/-! ## Looking in every repository -/

def errorText (env : Env) (repoIdx : Nat) (e : Error) : Str :=
  "repo".toList ++ fmtUInt (env.groupIdxToKey repoIdx) ++ ": [".toList ++ errorTypeName e.type ++
    "] ".toList ++ e.message

def existsWarning (env : Env) (archiveFile : Str) (repoIdx : Nat) : Str :=
  "WAL file '".toList ++ archiveFile ++ "' already exists in the repo".toList ++
    fmtUInt (env.groupIdxToKey repoIdx) ++ " archive with the same checksum".toList ++
    "\nHINT: this is valid in some recovery scenarios but may also indicate a problem.".toList

def duplicateError (env : Env) (archiveFile : Str) (repoIdx : Nat) : Error :=
  ⟨.archiveDuplicateError, "WAL file '".toList ++ archiveFile ++
    "' already exists in the repo".toList ++ fmtUInt (env.groupIdxToKey repoIdx) ++
    " archive with a different checksum".toList⟩

/-- The checksum in the name of a file found for a segment. -/
def repoChecksum (archiveFile file : Str) : Str := strSubN file (archiveFile.length + 1) 40

structure Lookup where
  destinationCopy : List (ArchivePushFileRepoData × Bool) := []
  errorList : List Str
  warnList : List Str := []

def lookupRepo (env : Env) (archiveFile walSegmentChecksum : Str)
    (storage : Nat → ArchiveStorage) (lookup : Lookup) (repoData : ArchivePushFileRepoData) :
    Except Error Lookup :=
  match walSegmentFind (env.fault repoData.repoIdx) (storage repoData.repoIdx) repoData.archiveId
      archiveFile with
  | .error e =>
    .ok { lookup with
      destinationCopy := lookup.destinationCopy ++ [(repoData, false)]
      errorList := lookup.errorList ++ [errorText env repoData.repoIdx e] }
  | .ok (some walSegmentFile) =>
    if walSegmentChecksum = repoChecksum archiveFile walSegmentFile then
      .ok { lookup with
        destinationCopy := lookup.destinationCopy ++ [(repoData, false)]
        warnList := lookup.warnList ++ [existsWarning env archiveFile repoData.repoIdx] }
    else .error (duplicateError env archiveFile repoData.repoIdx)
  | .ok none =>
    .ok { lookup with destinationCopy := lookup.destinationCopy ++ [(repoData, true)] }

/-! ## Copying -/

structure Destination where
  repoData : ArchivePushFileRepoData
  path : List Str
  written : Bytes := []

/-- Create the directories above a path. -/
def pathCreate (storage : ArchiveStorage) (path : List Str) : ArchiveStorage :=
  path.dropLast.inits.foldl Tree.mkdir storage

def ioWriteOpen (env : Env) : Op Nat Destination ArchiveStorage Error :=
  fun repoIdx destination storage =>
    match (env.fault repoIdx).openError with
    | some e => (.error e, storage)
    | none => (.ok destination, pathCreate storage destination.path)

def ioWrite (env : Env) (bufferIdx : Nat) (buffer : Bytes) :
    Op Nat Destination ArchiveStorage Error :=
  fun repoIdx destination storage =>
    match (env.fault repoIdx).writeError bufferIdx with
    | some e => (.error e, storage)
    | none => (.ok { destination with written := destination.written ++ buffer }, storage)

/-- The bytes of the file when all of `written` has been written. -/
def encode (env : Env) (repoData : ArchivePushFileRepoData) (written : Bytes) : Bytes :=
  if repoData.cipherType = .none then written else env.encrypt repoData written

def ioWriteClose (env : Env) : Op Nat Destination ArchiveStorage Error :=
  fun repoIdx destination storage =>
    let stored := storage.put destination.path (encode env destination.repoData destination.written)
    match (env.fault repoIdx).closeError with
    | some (e, named) => (.error e, if named then stored else storage)
    | none => (.ok destination, stored)

/-- The operations on the destinations, in order. -/
def copyOps (env : Env) (content : Bytes) : List (Op Nat Destination ArchiveStorage Error) :=
  ioWriteOpen env ::
    ((env.cut content).mapIdx (fun bufferIdx buffer => ioWrite env bufferIdx buffer) ++
      [ioWriteClose env])

def destinationEntry (archiveDestination : Str) (copy : ArchivePushFileRepoData × Bool) :
    Entry Nat Destination where
  key := copy.1.repoIdx
  live := copy.2
  dest := { repoData := copy.1, path := storageRepoArchivePath copy.1.archiveId archiveDestination }

/-- What is read from the source. -/
def sourceFilter (env : Env) (param : Param) (content : Bytes) : Bytes :=
  if walIsSegment param.archiveFile = true ∧ param.compressType ≠ .none then
    env.compress param.compressType param.compressLevel content
  else content

def compressExt (param : Param) : Str :=
  if walIsSegment param.archiveFile then compressExtStr param.compressType else []

/-- Copy the file to the repositories that need it. -/
def copyFile (env : Env) (param : Param) (archiveDestination : Str) (content : Bytes)
    (lookup : Lookup) (storage : Nat → ArchiveStorage) : List Str × (Nat → ArchiveStorage) :=
  let (_, storage, errors) := passes (copyOps env (sourceFilter env param content))
    (lookup.destinationCopy.map (destinationEntry (archiveDestination ++ compressExt param)))
    storage []
  (lookup.errorList ++ errors.map (fun e => errorText env e.1 e.2), storage)

def pgVersionToStr (version : Nat) : Str :=
  if version ≥ 100000 then fmtUInt (version / 10000)
  else fmtUInt (version / 10000) ++ '.' :: fmtUInt (version % 10000 / 100)

def headerCheck (env : Env) (param : Param) : Except Error Unit :=
  if param.headerCheck = true ∧ walIsSegment param.archiveFile = true then
    match env.walInfo with
    | .error e => .error e
    | .ok walInfo =>
      if walInfo.version ≠ param.pgVersion ∨ walInfo.systemId ≠ param.pgSystemId then
        .error ⟨.archiveMismatchError, "WAL file '".toList ++ param.walSource ++
          "' version ".toList ++ pgVersionToStr walInfo.version ++ ", system-id ".toList ++
          fmtUInt walInfo.systemId ++ " do not match stanza version ".toList ++
          pgVersionToStr param.pgVersion ++ ", system-id ".toList ++ fmtUInt param.pgSystemId⟩
      else .ok ()
  else .ok ()

def destinationFind (env : Env) (param : Param) (storage : Nat → ArchiveStorage) :
    Except Error (Str × Lookup) :=
  if walIsSegment param.archiveFile = true then
    match env.source with
    | .error e => .error e
    | .ok content =>
      match param.repoList.foldlM (lookupRepo env param.archiveFile (env.sha1.hash content) storage)
          { errorList := param.priorErrorList } with
      | .error e => .error e
      | .ok lookup => .ok (param.archiveFile ++ '-' :: env.sha1.hash content, lookup)
  else
    .ok (param.archiveFile,
      { destinationCopy := param.repoList.map fun repoData => (repoData, true)
        errorList := param.priorErrorList })

def commandError (errorList : List Str) : Error :=
  ⟨.commandError, "archive-push command encountered error(s):\n".toList ++
    strLstJoin errorList ['\n']⟩

def throwErrors (errorList warnList : List Str) : Except Error (List Str) :=
  if errorList.length > 0 then .error (commandError errorList) else .ok warnList

/-- The warnings or an error, and the repositories afterwards. -/
def archivePushFile (env : Env) (param : Param) (storage : Nat → ArchiveStorage) :
    Except Error (List Str) × (Nat → ArchiveStorage) :=
  match headerCheck env param with
  | .error e => (.error e, storage)
  | .ok () =>
    match destinationFind env param storage with
    | .error e => (.error e, storage)
    | .ok (archiveDestination, lookup) =>
      if lookup.destinationCopy.any Prod.snd then
        match env.source with
        | .error e => (.error e, storage)
        | .ok content =>
          let (errorList, storage) := copyFile env param archiveDestination content lookup storage
          (throwErrors errorList lookup.warnList, storage)
      else (throwErrors lookup.errorList lookup.warnList, storage)

/-! ## One repository -/

section Repo
variable {env : Env} {param : Param} {storage : Nat → ArchiveStorage} {content : Bytes}
  {repoData : ArchivePushFileRepoData}

/-- What the function finds in a repository. -/
def found (env : Env) (param : Param) (storage : Nat → ArchiveStorage)
    (repoData : ArchivePushFileRepoData) : Except Error (Option Str) :=
  walSegmentFind (env.fault repoData.repoIdx) (storage repoData.repoIdx) repoData.archiveId
    param.archiveFile

/-- The repository has the segment with another checksum. -/
def Differs (env : Env) (param : Param) (content : Bytes) (storage : Nat → ArchiveStorage)
    (repoData : ArchivePushFileRepoData) : Prop :=
  ∃ file, found env param storage repoData = .ok (some file) ∧
    repoChecksum param.archiveFile file ≠ env.sha1.hash content

def CopyFails (env : Env) (data : Bytes) (repoIdx : Nat) : Prop :=
  (env.fault repoIdx).openError ≠ none ∨
  (∃ bufferIdx < (env.cut data).length, (env.fault repoIdx).writeError bufferIdx ≠ none) ∨
  (env.fault repoIdx).closeError ≠ none

/-- The repository cannot be searched, or needs a copy and fails while it is written. -/
def Fails (env : Env) (param : Param) (content : Bytes) (storage : Nat → ArchiveStorage)
    (repoData : ArchivePushFileRepoData) : Prop :=
  (∃ e, found env param storage repoData = .error e) ∨
  found env param storage repoData = .ok none ∧
    CopyFails env (sourceFilter env param content) repoData.repoIdx

/-- What `archiveGetFile` gets of a file in the archive. -/
def archiveGetContent (env : Env) (repoData : ArchivePushFileRepoData) (name : Str)
    (stored : Bytes) : Bytes :=
  let data :=
    if repoData.cipherType = .none then stored
    else env.decrypt repoData.cipherType repoData.cipherPass stored
  if compressTypeFromName name = .none then data
  else env.decompress (compressTypeFromName name) data

/-- The repository has a file for the segment with the checksum of the source, which was
there before or is got as the source. -/
def Holds (env : Env) (param : Param) (content : Bytes) (before after : Nat → ArchiveStorage)
    (repoData : ArchivePushFileRepoData) : Prop :=
  ∃ name, walSegmentExpression param.archiveFile name = true ∧
    repoChecksum param.archiveFile name = env.sha1.hash content ∧
    let path := walSegmentDir repoData.archiveId param.archiveFile ++ [name]
    (((before repoData.repoIdx).node path).isSome ∧
      (after repoData.repoIdx).node path = (before repoData.repoIdx).node path ∨
    ∃ stored, (after repoData.repoIdx).read path = some stored ∧
      archiveGetContent env repoData name stored = content)

def writeOps (env : Env) (first : Nat) (buffers : List Bytes) :
    List (Op Nat Destination ArchiveStorage Error) :=
  buffers.mapIdx fun bufferIdx buffer => ioWrite env (first + bufferIdx) buffer

theorem writeOps_cons (env : Env) (first : Nat) (buffer : Bytes) (buffers : List Bytes) :
    writeOps env first (buffer :: buffers) =
      ioWrite env first buffer :: writeOps env (first + 1) buffers := by
  simp only [writeOps, List.mapIdx_cons, Nat.add_zero, Nat.add_assoc, Nat.add_comm 1]

theorem copyOps_eq (env : Env) (data : Bytes) :
    copyOps env data = ioWriteOpen env :: (writeOps env 0 (env.cut data) ++ [ioWriteClose env]) := by
  simp only [copyOps, writeOps, Nat.zero_add]

theorem alone_writeOps {ops : List (Op Nat Destination ArchiveStorage Error)} {repoIdx : Nat}
    {s : ArchiveStorage} : ∀ (buffers : List Bytes) (first : Nat) (destination : Destination),
    (∀ bufferIdx < buffers.length, (env.fault repoIdx).writeError (first + bufferIdx) = none) →
    alone (writeOps env first buffers ++ ops) ⟨repoIdx, true, destination⟩ s =
      alone ops ⟨repoIdx, true, { destination with
        written := destination.written ++ buffers.flatten }⟩ s := by
  intro buffers
  induction buffers with
  | nil =>
    intro first destination _
    simp [writeOps]
  | cons buffer buffers ih =>
    intro first destination fine
    have ok : ioWrite env first buffer repoIdx destination s =
        (.ok { destination with written := destination.written ++ buffer }, s) := by
      have none := fine 0 (Nat.zero_lt_succ _)
      rw [Nat.add_zero] at none
      simp only [ioWrite, none]
    rw [writeOps_cons, List.cons_append, alone_cons_ok ok, ih (first + 1) _ ?_]
    · simp [List.append_assoc]
    · intro bufferIdx lt
      have later := fine (bufferIdx + 1) (Nat.succ_lt_succ lt)
      rwa [Nat.add_comm bufferIdx 1, ← Nat.add_assoc] at later

theorem alone_writeOps_error {ops : List (Op Nat Destination ArchiveStorage Error)} {repoIdx : Nat}
    {s : ArchiveStorage} : ∀ (buffers : List Bytes) (first : Nat) (destination : Destination),
    (∃ bufferIdx < buffers.length, (env.fault repoIdx).writeError (first + bufferIdx) ≠ none) →
    (alone (writeOps env first buffers ++ ops) ⟨repoIdx, true, destination⟩ s).2.2 ≠ [] := by
  intro buffers
  induction buffers with
  | nil =>
    rintro first destination ⟨bufferIdx, lt, -⟩
    exact absurd lt (by simp)
  | cons buffer buffers ih =>
    rintro first destination ⟨bufferIdx, lt, fault⟩
    rw [writeOps_cons, List.cons_append]
    cases here : (env.fault repoIdx).writeError first with
    | some e =>
      have error : ioWrite env first buffer repoIdx destination s = (.error e, s) := by
        simp only [ioWrite, here]
      rw [alone_cons_error error]
      exact List.cons_ne_nil _ _
    | none =>
      have ok : ioWrite env first buffer repoIdx destination s =
          (.ok { destination with written := destination.written ++ buffer }, s) := by
        simp only [ioWrite, here]
      rw [alone_cons_ok ok]
      cases bufferIdx with
      | zero => exact absurd here fault
      | succ bufferIdx =>
        refine ih (first + 1) _ ⟨bufferIdx, Nat.lt_of_succ_lt_succ lt, ?_⟩
        rwa [Nat.add_assoc, Nat.add_comm 1]

theorem alone_copyOps {data : Bytes} {path : List Str} {s : ArchiveStorage}
    (fine : ¬ CopyFails env data repoData.repoIdx) :
    ∃ final s', alone (copyOps env data) ⟨repoData.repoIdx, true, ⟨repoData, path, []⟩⟩ s =
        (final, s', []) ∧ s'.read path = some (encode env repoData data) := by
  simp only [CopyFails, not_or, not_not, not_exists, not_and] at fine
  obtain ⟨noOpen, noWrite, noClose⟩ := fine
  have opened : ioWriteOpen env repoData.repoIdx ⟨repoData, path, []⟩ s =
      (.ok ⟨repoData, path, []⟩, pathCreate s path) := by
    simp only [ioWriteOpen, noOpen]
  have closed : ioWriteClose env repoData.repoIdx ⟨repoData, path, data⟩ (pathCreate s path) =
      (.ok ⟨repoData, path, data⟩,
        (pathCreate s path).put path (encode env repoData data)) := by
    simp only [ioWriteClose, noClose]
  rw [copyOps_eq, alone_cons_ok opened, alone_writeOps _ 0 _ (by simpa using noWrite)]
  simp only [List.nil_append, env.cut_flatten]
  rw [alone_cons_ok closed]
  refine ⟨_, _, rfl, ?_⟩
  rw [Tree.read, node_put, if_pos rfl]

theorem alone_copyOps_error {data : Bytes} {path : List Str} {s : ArchiveStorage}
    (fails : CopyFails env data repoData.repoIdx) :
    (alone (copyOps env data) ⟨repoData.repoIdx, true, ⟨repoData, path, []⟩⟩ s).2.2 ≠ [] := by
  rw [copyOps_eq]
  cases opening : (env.fault repoData.repoIdx).openError with
  | some e =>
    have error : ioWriteOpen env repoData.repoIdx ⟨repoData, path, []⟩ s = (.error e, s) := by
      simp only [ioWriteOpen, opening]
    rw [alone_cons_error error]
    exact List.cons_ne_nil _ _
  | none =>
    have opened : ioWriteOpen env repoData.repoIdx ⟨repoData, path, []⟩ s =
        (.ok ⟨repoData, path, []⟩, pathCreate s path) := by
      simp only [ioWriteOpen, opening]
    rw [alone_cons_ok opened]
    by_cases writing : ∃ bufferIdx < (env.cut data).length,
        (env.fault repoData.repoIdx).writeError bufferIdx ≠ none
    · exact alone_writeOps_error _ 0 _ (by simpa using writing)
    · have closing : (env.fault repoData.repoIdx).closeError ≠ none := by
        rcases fails with openFails | writeFails | closeFails
        · exact absurd opening openFails
        · exact absurd writeFails writing
        · exact closeFails
      obtain ⟨⟨e, named⟩, isSome⟩ := Option.ne_none_iff_exists'.mp closing
      rw [alone_writeOps _ 0 _ (by simpa using writing)]
      simp only [alone, step, ioWriteClose, isSome, if_true]
      exact List.cons_ne_nil _ _

/-! ## The name of the copy -/

theorem matchName_cons {atom : Char} {name s : Str} (plain : '?' ∉ name) :
    matchName (atom :: name) s = (matchAtom atom s).flatMap (matchName name) := by
  cases name with
  | nil => simp [matchName]
  | cons next name =>
    rw [matchName]
    rintro other same
    cases same
    exact plain List.mem_cons_self

theorem mem_matchName {name rest : Str} (plain : '?' ∉ name) : rest ∈ matchName name (name ++ rest) := by
  induction name with
  | nil => simp [matchName]
  | cons atom name ih =>
    have plainRest : '?' ∉ name := fun mem => plain (List.mem_cons_of_mem _ mem)
    rw [List.cons_append, matchName_cons plainRest, matchAtom, if_pos (.inr rfl),
      List.flatMap_singleton]
    exact ih plainRest

theorem walIsSegment_split {walSegment : Str} (segment : walIsSegment walSegment = true) :
    24 ≤ walSegment.length ∧ (matchN isWalChar 24 walSegment).isSome ∧
      walSegment = strSubN walSegment 0 24 ++
        if walIsPartial walSegment then walSegmentPartialExt else [] := by
  unfold walIsSegment at segment
  split at segment
  · rename_i rest matched
    obtain ⟨name, rfl, length, all⟩ := matchN_some matched
    have front : strSubN (name ++ rest) 0 24 = name := by
      rw [strSubN, List.drop_zero, List.take_left' length]
    refine ⟨by rw [List.length_append]; omega, by rw [matched]; rfl, ?_⟩
    rw [front]
    congr 1
    simp only [decide_eq_true_eq] at segment
    rcases segment with rfl | rfl
    · -- no character of the name is a dot
      rw [if_neg]
      simp only [walIsPartial, List.append_nil, List.isSuffixOf_iff_suffix]
      intro suffix
      have dot := all '.' (suffix.subset (by decide))
      exact absurd dot (by decide)
    · rw [if_pos]
      simp only [walIsPartial, List.isSuffixOf_iff_suffix]
      exact List.suffix_append name _
  · exact absurd segment (by decide)

theorem compressExtStr_mem (type : CompressType) :
    compressExtStr type = [] ∨ compressExtStr type ∈ compressExtList := by
  cases type <;> decide

theorem compressTypeFromName_append {name hash : Str} (type : CompressType) (long : 4 ≤ hash.length)
    (plain : '.' ∉ hash) : compressTypeFromName (name ++ hash ++ compressExtStr type) = type := by
  have one : ∀ other ≠ CompressType.none,
      (compressExtStr other).isSuffixOf (name ++ hash ++ compressExtStr type) =
        decide (other = type) := by
    intro other some
    have short : (compressExtStr other).length ≤ 4 := by cases other <;> decide
    have dot : '.' ∈ compressExtStr other := by
      cases other
      · exact absurd rfl some
      all_goals decide
    have apart : compressExtStr other <:+ compressExtStr type → other = type := by
      cases other <;> cases type <;> first | exact fun _ => rfl | exact absurd rfl some | decide
    have apart' : compressExtStr type <:+ compressExtStr other → type ≠ .none → other = type := by
      cases other <;> cases type <;>
        first | exact fun _ _ => rfl | exact absurd rfl some | decide
    rw [Bool.eq_iff_iff, List.isSuffixOf_iff_suffix, decide_eq_true_eq]
    constructor
    · intro suffix
      by_cases none : type = .none
      · -- A hash has no dot.
        subst none
        rw [compressExtStr, List.append_nil] at suffix
        have inside := List.suffix_of_suffix_length_le suffix (List.suffix_append name hash)
          (short.trans long)
        exact absurd (inside.subset dot) plain
      · rcases le_total (compressExtStr other).length (compressExtStr type).length with le | le
        · exact apart (List.suffix_of_suffix_length_le suffix (List.suffix_append _ _) le)
        · exact apart' (List.suffix_of_suffix_length_le (List.suffix_append _ _) suffix le) none
    · rintro rfl
      exact List.suffix_append _ _
  rw [compressTypeFromName]
  simp only [List.find?_cons, List.find?_nil, one _ (by decide : CompressType.bz2 ≠ .none),
    one _ (by decide : CompressType.gz ≠ .none), one _ (by decide : CompressType.lz4 ≠ .none),
    one _ (by decide : CompressType.zst ≠ .none), one _ (by decide : CompressType.xz ≠ .none)]
  cases type <;> rfl

def copyName (env : Env) (param : Param) (content : Bytes) : Str :=
  param.archiveFile ++ '-' :: env.sha1.hash content ++ compressExt param

theorem archiveGetContent_encode (segment : walIsSegment param.archiveFile = true) :
    archiveGetContent env repoData (copyName env param content)
      (encode env repoData (sourceFilter env param content)) = content := by
  have plain : '.' ∉ env.sha1.hash content := by
    intro dot
    exact absurd (env.sha1.digits content '.' dot) (by decide)
  have long : 4 ≤ (env.sha1.hash content).length := by rw [env.sha1.size]; decide
  have type : compressTypeFromName (copyName env param content) = param.compressType := by
    have whole : copyName env param content =
        (param.archiveFile ++ ['-']) ++ env.sha1.hash content ++ compressExtStr param.compressType := by
      rw [copyName, compressExt, if_pos segment, List.append_assoc param.archiveFile ['-']]
      rfl
    rw [whole, compressTypeFromName_append param.compressType long plain]
  have data : (if repoData.cipherType = .none then
        encode env repoData (sourceFilter env param content)
      else env.decrypt repoData.cipherType repoData.cipherPass
        (encode env repoData (sourceFilter env param content))) = sourceFilter env param content := by
    rw [encode]
    split
    next => rfl
    next some => exact env.decrypt_encrypt repoData _ some
  rw [archiveGetContent, data, type, sourceFilter]
  by_cases none : param.compressType = .none
  · rw [if_pos none, if_neg fun both => both.2 none]
  · rw [if_neg none, if_pos ⟨segment, none⟩]
    exact env.decompress_compress _ _ _ none

theorem walSegmentExpression_copyName (segment : walIsSegment param.archiveFile = true)
    (plain : '?' ∉ param.archiveFile) :
    walSegmentExpression param.archiveFile (copyName env param content) = true := by
  obtain ⟨-, -, split⟩ := walIsSegment_split segment
  rw [walSegmentExpression, ← split, List.any_eq_true]
  refine ⟨'-' :: env.sha1.hash content ++ compressExt param, ?_, ?_⟩
  · rw [copyName, List.append_assoc]
    exact mem_matchName plain
  · have hash := @matchN_of_all isHashChar _ _ (compressExt param) (env.sha1.size content)
      (env.sha1.digits content)
    rw [List.cons_append, matchChar, if_pos rfl, Option.bind_some, hash]
    simp only [decide_eq_true_eq, compressExt, segment, if_true]
    exact compressExtStr_mem param.compressType

theorem repoChecksum_copyName :
    repoChecksum param.archiveFile (copyName env param content) = env.sha1.hash content := by
  have skip : (copyName env param content).drop (param.archiveFile.length + 1) =
      env.sha1.hash content ++ compressExt param := by
    rw [copyName, List.append_assoc, ← List.drop_drop, List.drop_left]
    rfl
  rw [repoChecksum, strSubN, skip, List.take_left' (env.sha1.size content)]

theorem storageRepoArchivePath_copyName (segment : walIsSegment param.archiveFile = true)
    (archiveId : Str) :
    storageRepoArchivePath archiveId (copyName env param content) =
      walSegmentDir archiveId param.archiveFile ++ [copyName env param content] := by
  obtain ⟨long, matched, -⟩ := walIsSegment_split segment
  obtain ⟨rest, isSome⟩ := Option.isSome_iff_exists.mp matched
  obtain ⟨name, same, length, all⟩ := matchN_some isSome
  have front : (matchN isWalChar 24 (copyName env param content)).isSome = true := by
    rw [copyName, same, List.append_assoc, List.append_assoc, matchN_of_all length all]
    rfl
  have dir : strSubN (copyName env param content) 0 16 = strSubN param.archiveFile 0 16 := by
    rw [strSubN, strSubN, List.drop_zero, List.drop_zero, copyName, List.append_assoc,
      List.take_append_of_le_length (by omega)]
  rw [storageRepoArchivePath, if_pos front, dir]
  rfl

/-! ## All repositories -/

def needsCopy (env : Env) (param : Param) (storage : Nat → ArchiveStorage)
    (repoData : ArchivePushFileRepoData) : Bool :=
  match found env param storage repoData with
  | .ok none => true
  | _ => false

theorem lookups_differ : ∀ (repoList : List ArchivePushFileRepoData) (lookup : Lookup),
    (∃ repoData ∈ repoList, Differs env param content storage repoData) →
    ∃ e, repoList.foldlM (lookupRepo env param.archiveFile (env.sha1.hash content) storage)
      lookup = .error e := by
  intro repoList
  induction repoList with
  | nil =>
    rintro lookup ⟨repoData, mem, -⟩
    exact absurd mem List.not_mem_nil
  | cons repoData rest ih =>
    rintro lookup ⟨other, mem, differs⟩
    rw [List.foldlM_cons]
    cases first : lookupRepo env param.archiveFile (env.sha1.hash content) storage lookup
        repoData with
    | error e => exact ⟨e, rfl⟩
    | ok next =>
      rcases List.mem_cons.mp mem with rfl | mem
      · obtain ⟨file, isFound, different⟩ := differs
        rw [found] at isFound
        simp only [lookupRepo, isFound, if_neg (Ne.symm different)] at first
        exact absurd first (by simp)
      · exact ih next ⟨other, mem, differs⟩

theorem lookups_spec : ∀ (repoList : List ArchivePushFileRepoData) (lookup : Lookup),
    (∀ repoData ∈ repoList, ¬ Differs env param content storage repoData) →
    ∃ next, repoList.foldlM (lookupRepo env param.archiveFile (env.sha1.hash content) storage)
        lookup = .ok next ∧
      next.destinationCopy = lookup.destinationCopy ++
        repoList.map (fun repoData => (repoData, needsCopy env param storage repoData)) ∧
      (next.errorList = [] ↔ lookup.errorList = [] ∧
        ∀ repoData ∈ repoList, ∀ e, found env param storage repoData ≠ .error e) := by
  intro repoList
  induction repoList with
  | nil =>
    intro lookup _
    exact ⟨lookup, rfl, by simp, by simp⟩
  | cons repoData rest ih =>
    intro lookup same
    have one : ∃ middle, lookupRepo env param.archiveFile (env.sha1.hash content) storage lookup
          repoData = .ok middle ∧
        middle.destinationCopy = lookup.destinationCopy ++
          [(repoData, needsCopy env param storage repoData)] ∧
        (middle.errorList = [] ↔ lookup.errorList = [] ∧
          ∀ e, found env param storage repoData ≠ .error e) := by
      unfold lookupRepo needsCopy
      rw [← found]
      cases isFound : found env param storage repoData with
      | error e => exact ⟨_, rfl, rfl, by simp⟩
      | ok file =>
        cases file with
        | none => exact ⟨_, rfl, rfl, by simp⟩
        | some file =>
          have equal : env.sha1.hash content = repoChecksum param.archiveFile file := by
            by_contra different
            exact same repoData List.mem_cons_self ⟨file, isFound, Ne.symm different⟩
          simp only [if_pos equal]
          exact ⟨_, rfl, rfl, by simp⟩
    obtain ⟨middle, first, copies, errors⟩ := one
    obtain ⟨next, later, copies', errors'⟩ := ih middle
      (fun other mem => same other (List.mem_cons_of_mem _ mem))
    refine ⟨next, ?_, ?_, ?_⟩
    · rw [List.foldlM_cons, first]
      exact later
    · rw [copies', copies, List.append_assoc]
      rfl
    · rw [errors', errors, List.forall_mem_cons, and_assoc]

theorem holds_of_not_fails {after : Nat → ArchiveStorage}
    (segment : walIsSegment param.archiveFile = true) (plain : '?' ∉ param.archiveFile)
    (same : ¬ Differs env param content storage repoData)
    (fine : ¬ Fails env param content storage repoData)
    (state : after repoData.repoIdx = (alone (copyOps env (sourceFilter env param content))
      (destinationEntry (copyName env param content)
        (repoData, needsCopy env param storage repoData)) (storage repoData.repoIdx)).2.1) :
    Holds env param content storage after repoData := by
  simp only [Fails, not_or, not_exists, not_and] at fine
  obtain ⟨isFound, copies⟩ := fine
  cases result : found env param storage repoData with
  | error e => exact absurd result (isFound e)
  | ok file =>
    cases file with
    | some file =>
      -- the segment is there and the repository is left alone
      have kept : after repoData.repoIdx = storage repoData.repoIdx := by
        rw [state, alone_of_not_live _ (by simp [destinationEntry, needsCopy, result])]
      have listed : file ∈ ((storage repoData.repoIdx).children
          (walSegmentDir repoData.archiveId param.archiveFile)).filter
            (walSegmentExpression param.archiveFile) := by
        unfold found walSegmentFind at result
        split at result
        · exact absurd result (by simp)
        · split at result
          · exact absurd result (by simp)
          · rename_i only
            cases result
            rw [only]
            exact List.mem_singleton.mpr rfl
          · exact absurd result (by simp)
      obtain ⟨isChild, matched⟩ := List.mem_filter.mp listed
      refine ⟨file, matched, ?_, .inl ⟨mem_children.mp isChild, by rw [kept]⟩⟩
      by_contra different
      exact same ⟨file, result, different⟩
    | none =>
      obtain ⟨final, s, run, stored⟩ := @alone_copyOps env repoData _
        (storageRepoArchivePath repoData.archiveId (copyName env param content))
        (storage repoData.repoIdx) (copies result)
      have needs : needsCopy env param storage repoData = true := by
        rw [needsCopy, result]
      refine ⟨copyName env param content, walSegmentExpression_copyName segment plain,
        repoChecksum_copyName, .inr ?_⟩
      rw [← storageRepoArchivePath_copyName segment, state, needs]
      rw [destinationEntry, run]
      exact ⟨_, stored, archiveGetContent_encode segment⟩

theorem fails_iff : Fails env param content storage repoData ↔
    (∃ e, found env param storage repoData = .error e) ∨
    (alone (copyOps env (sourceFilter env param content))
      (destinationEntry (copyName env param content)
        (repoData, needsCopy env param storage repoData)) (storage repoData.repoIdx)).2.2 ≠ [] := by
  apply or_congr_right
  cases result : found env param storage repoData with
  | error e =>
    rw [alone_of_not_live _ (by simp [destinationEntry, needsCopy, result])]
    simp
  | ok file =>
    cases file with
    | some file =>
      rw [alone_of_not_live _ (by simp [destinationEntry, needsCopy, result])]
      simp
    | none =>
      have needs : needsCopy env param storage repoData = true := by
        rw [needsCopy, result]
      simp only [true_and, needs, destinationEntry]
      constructor
      · intro fails
        exact alone_copyOps_error fails
      · intro errors
        by_contra fine
        obtain ⟨final, s, run, -⟩ := @alone_copyOps env repoData _
          (storageRepoArchivePath repoData.archiveId (copyName env param content))
          (storage repoData.repoIdx) fine
        rw [run] at errors
        exact errors rfl

theorem copyFile_errorList {lookup : Lookup} :
    (copyFile env param (param.archiveFile ++ '-' :: env.sha1.hash content) content lookup
      storage).1 = [] ↔ lookup.errorList = [] ∧
        (passes (copyOps env (sourceFilter env param content))
          (lookup.destinationCopy.map (destinationEntry (copyName env param content)))
          storage []).2.2 = [] := by
  simp only [copyFile, copyName, List.append_eq_nil_iff, List.map_eq_nil_iff]

theorem archivePushFile_run (header : headerCheck env param = .ok ())
    (segment : walIsSegment param.archiveFile = true) (readable : env.source = .ok content)
    (distinct : (param.repoList.map ArchivePushFileRepoData.repoIdx).Nodup)
    (same : ∀ repoData ∈ param.repoList, ¬ Differs env param content storage repoData) :
    ∃ errorList warnList after,
      archivePushFile env param storage = (throwErrors errorList warnList, after) ∧
      (errorList = [] ↔ param.priorErrorList = [] ∧
        ∀ repoData ∈ param.repoList, ¬ Fails env param content storage repoData) ∧
      ∀ repoData ∈ param.repoList, after repoData.repoIdx =
        (alone (copyOps env (sourceFilter env param content))
          (destinationEntry (copyName env param content)
            (repoData, needsCopy env param storage repoData)) (storage repoData.repoIdx)).2.1 := by
  obtain ⟨lookup, run, copies, noError⟩ := lookups_spec param.repoList
    { errorList := param.priorErrorList } same
  have find : destinationFind env param storage =
      .ok (param.archiveFile ++ '-' :: env.sha1.hash content, lookup) := by
    simp only [destinationFind, segment, if_true, readable, run]
  simp only [archivePushFile, header, find, readable]
  simp only [List.nil_append] at copies
  by_cases any : lookup.destinationCopy.any Prod.snd = true
  · rw [if_pos any]
    have keys : ((lookup.destinationCopy.map
        (destinationEntry (copyName env param content))).map Entry.key).Nodup := by
      rw [copies, List.map_map, List.map_map]
      exact distinct
    obtain ⟨states, -, errors⟩ := passes_spec (copyOps env (sourceFilter env param content))
      (lookup.destinationCopy.map (destinationEntry (copyName env param content))) storage [] keys
    refine ⟨_, _, _, rfl, ?_, ?_⟩
    · rw [copyFile_errorList, noError, errors, copies, List.map_map, List.forall_mem_map, and_assoc]
      apply and_congr_right
      intro _
      simp only [true_and, fails_iff, not_or, not_exists, ne_eq, not_not]
      exact ⟨fun both repoData mem => ⟨both.1 repoData mem, both.2 repoData mem⟩,
        fun all => ⟨fun repoData mem => (all repoData mem).1, fun repoData mem => (all repoData mem).2⟩⟩
    · intro repoData mem
      apply states (destinationEntry (copyName env param content)
        (repoData, needsCopy env param storage repoData))
      rw [copies, List.map_map]
      exact List.mem_map_of_mem mem
  · rw [if_neg any]
    have none : ∀ repoData ∈ param.repoList, needsCopy env param storage repoData = false := by
      intro repoData mem
      by_contra needs
      apply any
      rw [copies, List.any_map, List.any_eq_true]
      exact ⟨repoData, mem, by simpa using needs⟩
    refine ⟨_, _, _, rfl, ?_, ?_⟩
    · rw [noError]
      apply and_congr_right
      intro _
      simp only [fails_iff, not_or, not_exists, ne_eq, not_not]
      constructor
      · intro all repoData mem
        refine ⟨all repoData mem, ?_⟩
        rw [alone_of_not_live _ (none repoData mem)]
      · intro all repoData mem
        exact (all repoData mem).1
    · intro repoData mem
      rw [alone_of_not_live _ (none repoData mem)]

theorem throwErrors_error_iff {errorList warnList : List Str} :
    (∃ e, throwErrors errorList warnList = .error e) ↔ errorList ≠ [] := by
  unfold throwErrors
  cases errorList with
  | nil => simp
  | cons first rest => simp

/-- A repository with another checksum stops the push before anything is written. -/
theorem archivePushFile_differs (header : headerCheck env param = .ok ())
    (segment : walIsSegment param.archiveFile = true) (readable : env.source = .ok content)
    (differs : ∃ repoData ∈ param.repoList, Differs env param content storage repoData) :
    ∃ e, archivePushFile env param storage = (.error e, storage) := by
  obtain ⟨e, run⟩ := lookups_differ param.repoList { errorList := param.priorErrorList } differs
  refine ⟨e, ?_⟩
  have find : destinationFind env param storage = .error e := by
    simp only [destinationFind, segment, if_true, readable, run]
  simp only [archivePushFile, header, find]

end Repo

/-! A push to two repositories, the first of which cannot be opened. -/

def abcSha1 : Sha1 where
  hash _ := "a9993e364706816aba3e25717850c26c9cd0d89d".toList
  size _ := by decide
  digits _ := List.all_iff_forall_prop.mp (by decide)

def pushEnv : Env where
  sha1 := abcSha1
  compress _ _ content := content
  decompress _ content := content
  decompress_compress _ _ _ _ := rfl
  encrypt _ content := content
  decrypt _ _ content := content
  decrypt_encrypt _ _ _ := rfl
  cut content := [content]
  cut_ne_nil _ := List.cons_ne_nil _ _
  cut_flatten content := by simp
  groupIdxToKey repoIdx := repoIdx + 1
  fault
    | 0 => { openError := some ⟨.fileOpenError, "unable to open".toList⟩ }
    | _ => {}
  walInfo := .ok ⟨130000, 1⟩
  source := .ok [97, 98, 99]

def pushParam : Param where
  walSource := "pg_wal/000000010000000100000001".toList
  headerCheck := true
  pgVersion := 130000
  pgSystemId := 1
  archiveFile := "000000010000000100000001".toList
  compressType := .none
  compressLevel := 0
  repoList := [⟨0, "13-1".toList, .none, none⟩, ⟨1, "13-1".toList, .none, none⟩]
  priorErrorList := []

def emptyStorage : Nat → ArchiveStorage := fun _ => ⟨[]⟩

end ArchivePushFile
