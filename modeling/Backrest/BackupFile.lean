import Backrest.BackupQueue
import Backrest.Repository

/-!
# Backing up one file

A job compares the source file, the copy a resumed backup left or both with the
checksum of the manifest, and copies the file when it has to. What the source
holds may differ each time it is read.
-/

namespace BackupFile

open Text Variants BackupCommon BackupManifest BackupQueue

abbrev Bytes := List UInt8

/-- What page checksums found in a file. -/
structure PageChecksumResult where
  valid : Bool
  align : Bool
  error : List Variant

/-- The filters a file passes on its way, and what the repository says of a stored file. -/
structure Filters where
  hash : Bytes → Str
  compress : CompressType → Int → Bytes → Bytes
  decompress : CompressType → Bytes → Except Error Bytes
  /-- Encryption with a salt of its own each time. -/
  encrypt : CipherType → Option Str → Nat → Bytes → Bytes
  decrypt : CipherType → Option Str → Bytes → Except Error Bytes
  pageChecksum : Nat → Nat → Bytes → PageChecksumResult
  featureCompress : Bool
  infoSize : Bytes → Nat

/-- What is compressed or encrypted can be read again. -/
structure Lossless (f : Filters) : Prop where
  decompress_compress : ∀ type level content,
    f.decompress type (f.compress type level content) = .ok content
  decrypt_encrypt : ∀ type pass salt content,
    f.decrypt type pass (f.encrypt type pass salt content) = .ok content

/-- The files of the repository by name. -/
abbrev Store := Str → Option Bytes

def Store.put (store : Store) (path : Str) (content : Bytes) : Store :=
  fun other => if other = path then some content else store other

def Store.remove (store : Store) (path : Str) : Store :=
  fun other => if other = path then none else store other

/-- What a job meets: the source file when it is checked and when it is copied, an error
from reading the repository, and an error while copying with what was written by then. -/
structure JobWorld where
  check : Except Error (Option Bytes)
  copy : Except Error (Option Bytes)
  repoRead : Option Error := none
  repoWrite : Option (Error × Bytes) := none
  salt : Nat := 0

inductive BackupCopyResult where
  | checksum
  | copy
  | reCopy
  | skip
  | noOp
  deriving DecidableEq, Repr

structure BackupFileResult where
  backupCopyResult : BackupCopyResult := .copy
  copySize : Nat := 0
  copyChecksum : Option Str := none
  repoSize : Nat := 0
  pageChecksumResult : Option PageChecksumResult := none

/-- The number after the last dot, if there are only digits. -/
def segmentNumber (pgFile : Str) : Except Error Nat :=
  let digits := (pgFile.reverse.takeWhile Char.isDigit).reverse
  if digits ≠ [] ∧ (pgFile.reverse.drop digits.length).head? = some '.' then
    if cvtDigits digits < 2 ^ 32 then .ok (cvtDigits digits)
    else .error ⟨.formatError, "unable to convert base 10 string '".toList ++ digits ++
      "' to unsigned int".toList⟩
  else .ok 0

def repoPathFile (backupLabel repoFile : Str) (compressType : CompressType) : Str :=
  Repository.storageRepoBackup ++ '/' :: backupLabel ++ '/' :: repoFile ++ compressExtStr compressType

def paramPathFile (param : BackupFileParam) : Str :=
  repoPathFile param.backupLabel param.repoFile param.repoFileCompressType

def repoEncode (f : Filters) (param : BackupFileParam) (salt : Nat) (content : Bytes) : Bytes :=
  let compressed :=
    if param.repoFileCompressType ≠ .none then
      f.compress param.repoFileCompressType param.repoFileCompressLevel content
    else content
  if param.cipherType ≠ .none then f.encrypt param.cipherType param.cipherPass salt compressed
  else compressed

def repoDecode (f : Filters) (compressType : CompressType) (cipherType : CipherType)
    (cipherPass : Option Str) (stored : Bytes) : Except Error Bytes :=
  match (if cipherType ≠ .none then f.decrypt cipherType cipherPass stored else .ok stored) with
  | .error e => .error e
  | .ok compressed =>
    if compressType ≠ .none then f.decompress compressType compressed else .ok compressed

/-- Read the source file, only as many bytes as the manifest says where that is asked for. -/
def pgRead (param : BackupFileParam) : Except Error (Option Bytes) → Except Error (Option Bytes)
  | .error e => .error e
  | .ok none =>
    if param.pgFileIgnoreMissing then .ok none
    else .error ⟨.fileMissingError, "unable to open missing file '".toList ++
      param.pgFile.getD [] ++ "' for read".toList⟩
  | .ok (some content) =>
    .ok (some (if param.pgFileCopyExactSize then content.take param.pgFileSize else content))

/-- Does what was read have the size and checksum of the manifest? -/
def fileMatch (f : Filters) (param : BackupFileParam) (content : Bytes) : Bool :=
  param.pgFileSize = content.length ∧ param.pgFileChecksum = some (f.hash content)

def matchResult (f : Filters) (content : Bytes) (result : BackupCopyResult) : BackupFileResult where
  backupCopyResult := result
  copySize := content.length
  copyChecksum := some (f.hash content)

def checkPg (f : Filters) (param : BackupFileParam) (world : JobWorld) :
    Except Error (BackupFileResult × Bool) :=
  match pgRead param world.check with
  | .error e => .error e
  | .ok none => .ok ({ backupCopyResult := .skip }, false)
  | .ok (some content) =>
    if fileMatch f param content then
      .ok (if param.repoFileHasReference then matchResult f content .noOp else {}, true)
    else .ok ({}, false)

def repoRead (f : Filters) (param : BackupFileParam) (world : JobWorld) (store : Store) :
    Except Error Bytes :=
  match world.repoRead with
  | some e => .error e
  | none =>
    match store (paramPathFile param) with
    | none => .error ⟨.fileMissingError, "unable to open missing file '".toList ++
        paramPathFile param ++ "' for read".toList⟩
    | some stored => repoDecode f param.repoFileCompressType param.cipherType param.cipherPass stored

/-- The check of the stored copy. The file is copied again on any kind of error. -/
def checkRepo (f : Filters) (param : BackupFileParam) (world : JobWorld) (store : Store) :
    BackupFileResult :=
  match repoRead f param world store with
  | .error _ => { backupCopyResult := .reCopy }
  | .ok content =>
    if fileMatch f param content then matchResult f content .checksum
    else { backupCopyResult := .reCopy }

def checkFile (f : Filters) (param : BackupFileParam) (world : JobWorld) (store : Store) :
    Except Error (BackupFileResult × Store) :=
  match param.pgFileChecksum with
  | none => .ok ({}, store)
  | some _ =>
    match (if param.delta then checkPg f param world else .ok ({}, false)) with
    | .error e => .error e
    | .ok (result, pgFileMatch) =>
      if !param.delta || !param.repoFileHasReference then
        if result.backupCopyResult = .skip then .ok (result, store.remove (paramPathFile param))
        else if !param.delta || pgFileMatch then .ok (checkRepo f param world store, store)
        else .ok (result, store)
      else .ok (result, store)

def pageSegment (param : BackupFileParam) : Except Error Nat :=
  if param.pgFileChecksumPage then segmentNumber (param.pgFile.getD []) else .ok 0

def copyFile (f : Filters) (param : BackupFileParam) (world : JobWorld) (result : BackupFileResult)
    (store : Store) : Except Error BackupFileResult × Store :=
  match pageSegment param, pgRead param world.copy with
  | .error e, _ => (.error e, store)
  | .ok _, .error e => (.error e, store)
  | .ok _, .ok none => (.ok { result with backupCopyResult := .skip }, store)
  | .ok segment, .ok (some content) =>
    match world.repoWrite with
    | some (e, written) => (.error e, store.put (paramPathFile param) written)
    | none =>
      let stored := repoEncode f param world.salt content
      (.ok { result with
          copySize := content.length
          copyChecksum := some (f.hash content)
          repoSize := if f.featureCompress then f.infoSize stored else stored.length
          pageChecksumResult :=
            if param.pgFileChecksumPage then
              some (f.pageChecksum segment param.pgFileChecksumPageLsnLimit content)
            else none },
        store.put (paramPathFile param) stored)

def checksumRepoSize (f : Filters) (param : BackupFileParam) (store : Store)
    (result : BackupFileResult) : BackupFileResult :=
  if result.backupCopyResult = .checksum then
    { result with repoSize := ((store (paramPathFile param)).map f.infoSize).getD 0 }
  else result

def backupFile (f : Filters) (param : BackupFileParam) (world : JobWorld) (store : Store) :
    Except Error BackupFileResult × Store :=
  match checkFile f param world store with
  | .error e => (.error e, store)
  | .ok (result, store) =>
    if result.backupCopyResult = .copy ∨ result.backupCopyResult = .reCopy then
      copyFile f param world result store
    else (.ok (checksumRepoSize f param store result), store)

section Spec
variable {f : Filters} {param : BackupFileParam} {world : JobWorld} {store store' : Store}
  {result : BackupFileResult}

theorem repoDecode_repoEncode (lossless : Lossless f) (salt : Nat) (content : Bytes) :
    repoDecode f param.repoFileCompressType param.cipherType param.cipherPass
      (repoEncode f param salt content) = .ok content := by
  unfold repoDecode repoEncode
  by_cases cipher : param.cipherType = .none
  · by_cases compress : param.repoFileCompressType = .none
    · simp [cipher, compress]
    · simp [cipher, compress, lossless.decompress_compress]
  · by_cases compress : param.repoFileCompressType = .none
    · simp [cipher, compress, lossless.decrypt_encrypt]
    · simp [cipher, compress, lossless.decrypt_encrypt, lossless.decompress_compress]

theorem fileMatch_iff {content : Bytes} : fileMatch f param content = true ↔
    param.pgFileSize = content.length ∧ param.pgFileChecksum = some (f.hash content) := by
  unfold fileMatch
  exact decide_eq_true_iff

theorem pgRead_missing {content : Bytes} : pgRead param (.ok none) ≠ .ok (some content) := by
  intro read
  rw [pgRead] at read
  split at read
  · cases read
  · cases read

/-- The source had the size and checksum of the manifest when it was checked. -/
def PgMatched (f : Filters) (param : BackupFileParam) (world : JobWorld) : Prop :=
  ∃ content, pgRead param world.check = .ok (some content) ∧ fileMatch f param content = true

/-- The stored copy has the size and checksum of the manifest. -/
def RepoMatched (f : Filters) (param : BackupFileParam) (store : Store) : Prop :=
  ∃ stored content, store (paramPathFile param) = some stored ∧
    repoDecode f param.repoFileCompressType param.cipherType param.cipherPass stored =
      .ok content ∧
    fileMatch f param content = true

/-- What a job did that did not fail, with the repository after it. -/
inductive Outcome (f : Filters) (param : BackupFileParam) (world : JobWorld) (store : Store)
    (result : BackupFileResult) : Prop
  | noOp (is : result.backupCopyResult = .noOp) (delta : param.delta = true)
      (reference : param.repoFileHasReference = true) (matched : PgMatched f param world)
  | checksum (is : result.backupCopyResult = .checksum)
      (reference : param.delta = true → param.repoFileHasReference = false)
      (matched : param.delta = true → PgMatched f param world)
      (stored : RepoMatched f param store)
  | skip (is : result.backupCopyResult = .skip)
  | copy (content : Bytes)
      (is : result.backupCopyResult = .copy ∨ result.backupCopyResult = .reCopy)
      (read : pgRead param world.copy = .ok (some content))
      (size : result.copySize = content.length) (hash : result.copyChecksum = some (f.hash content))
      (stored : store (paramPathFile param) = some (repoEncode f param world.salt content))

/-- A repository differs from another at one name only. -/
def SameBut (path : Str) (store store' : Store) : Prop := ∀ other, other ≠ path → store' other = store other

theorem sameBut_put (path : Str) (content : Bytes) : SameBut path store (store.put path content) := by
  intro other differ
  rw [Store.put, if_neg differ]

theorem sameBut_remove (path : Str) : SameBut path store (store.remove path) := by
  intro other differ
  rw [Store.remove, if_neg differ]

theorem copyFile_outcome (is : result.backupCopyResult = .copy ∨ result.backupCopyResult = .reCopy)
    {final : BackupFileResult}
    (run : copyFile f param world result store = (.ok final, store')) :
    Outcome f param world store' final := by
  unfold copyFile at run
  split at run
  · exact absurd run (by simp)
  · exact absurd run (by simp)
  · obtain ⟨rfl, rfl⟩ : _ = final ∧ store = store' := by simpa using run
    exact .skip rfl
  · rename_i segment content found read
    split at run
    · exact absurd run (by simp)
    · obtain ⟨rfl, rfl⟩ : _ = final ∧ store.put _ _ = store' := by simpa using run
      refine .copy content is read rfl rfl ?_
      rw [Store.put, if_pos rfl]

theorem checkPg_outcome {pgFileMatch : Bool} (delta : param.delta = true)
    (run : checkPg f param world = .ok (result, pgFileMatch)) :
    (pgFileMatch = true → PgMatched f param world) ∧
      (result.backupCopyResult = .copy ∨ Outcome f param world store result) := by
  unfold checkPg at run
  split at run
  · exact absurd run (by simp)
  · cases run
    exact ⟨fun h => absurd h (by simp), .inr (.skip rfl)⟩
  · rename_i content read
    split at run
    · rename_i same
      have matched : PgMatched f param world := ⟨content, read, same⟩
      cases run
      refine ⟨fun _ => matched, ?_⟩
      cases reference : param.repoFileHasReference with
      | true =>
        rw [if_pos rfl]
        exact .inr (.noOp rfl delta reference matched)
      | false => exact .inl rfl
    · cases run
      exact ⟨fun h => absurd h (by simp), .inl rfl⟩

theorem checkRepo_outcome (reference : param.delta = true → param.repoFileHasReference = false)
    (matched : param.delta = true → PgMatched f param world) :
    (checkRepo f param world store).backupCopyResult = .reCopy ∨
      Outcome f param world store (checkRepo f param world store) := by
  unfold checkRepo
  split
  · exact .inl rfl
  · rename_i content read
    split
    · rename_i same
      right
      refine .checksum rfl reference matched ?_
      unfold repoRead at read
      split at read
      · exact absurd read (by simp)
      · split at read
        · exact absurd read (by simp)
        · rename_i stored there
          exact ⟨stored, content, there, read, same⟩
    · exact .inl rfl

/-- After the checks the file is to be copied or the job is over. -/
theorem checkFile_outcome (run : checkFile f param world store = .ok (result, store')) :
    SameBut (paramPathFile param) store store' ∧
      (result.backupCopyResult = .copy ∨ result.backupCopyResult = .reCopy ∨
        Outcome f param world store' result) := by
  have unchanged : SameBut (paramPathFile param) store store := fun _ _ => rfl
  unfold checkFile at run
  split at run
  · cases run
    exact ⟨unchanged, .inl rfl⟩
  · split at run
    · exact absurd run (by simp)
    · rename_i checked pgFileMatch pg
      cases delta : param.delta with
      | false =>
        rw [delta] at pg
        cases pg
        simp only [delta, Bool.not_false, Bool.true_or, if_true, reduceCtorEq, if_false] at run
        cases run
        have absent : ¬ param.delta = true := by simp [delta]
        exact ⟨unchanged, .inr (checkRepo_outcome (fun h => absurd h absent)
          (fun h => absurd h absent))⟩
      | true =>
        rw [delta, if_pos rfl] at pg
        obtain ⟨matched, outcome⟩ := @checkPg_outcome f param world store' checked pgFileMatch delta pg
        cases reference : param.repoFileHasReference with
        | true =>
          simp only [delta, reference, Bool.not_true, Bool.or_self, Bool.false_eq_true, if_false] at run
          cases run
          rcases outcome with copy | outcome
          · exact ⟨unchanged, .inl copy⟩
          · exact ⟨unchanged, .inr (.inr outcome)⟩
        | false =>
          simp only [reference, Bool.not_false, Bool.or_true, if_true] at run
          split at run
          · rename_i skipped
            cases run
            exact ⟨sameBut_remove _, .inr (.inr (.skip skipped))⟩
          · split at run
            · rename_i checked
              cases run
              rw [delta, Bool.not_true, Bool.false_or] at checked
              exact ⟨unchanged, .inr (checkRepo_outcome (fun _ => reference)
                (fun _ => matched checked))⟩
            · cases run
              rcases outcome with copy | outcome
              · exact ⟨unchanged, .inl copy⟩
              · exact ⟨unchanged, .inr (.inr outcome)⟩

theorem outcome_checksumRepoSize (outcome : Outcome f param world store result) :
    Outcome f param world store (checksumRepoSize f param store result) := by
  unfold checksumRepoSize
  split
  · rename_i is
    cases outcome with
    | noOp is' => exact absurd (is.symm.trans is') (by decide)
    | skip is' => exact absurd (is.symm.trans is') (by decide)
    | checksum is' reference matched stored => exact .checksum is reference matched stored
    | copy content is' =>
      rcases is' with is' | is'
      · exact absurd (is.symm.trans is') (by decide)
      · exact absurd (is.symm.trans is') (by decide)
  · exact outcome

/-- A job leaves the files of other jobs alone, also when it fails. -/
theorem backupFile_sameBut (f : Filters) (param : BackupFileParam) (world : JobWorld)
    (store : Store) : SameBut (paramPathFile param) store (backupFile f param world store).2 := by
  unfold backupFile
  split
  · exact fun _ _ => rfl
  · rename_i checked middle check
    obtain ⟨same, -⟩ := checkFile_outcome check
    split
    · intro other differ
      rw [← same other differ]
      unfold copyFile
      split
      · rfl
      · rfl
      · rfl
      · split
        · exact sameBut_put _ _ other differ
        · exact sameBut_put _ _ other differ
    · exact same

/-- The outcome of a job that did not fail. -/
theorem backupFile_outcome (run : backupFile f param world store = (.ok result, store')) :
    Outcome f param world store' result := by
  unfold backupFile at run
  split at run
  · exact absurd run (by simp)
  · rename_i checked middle check
    obtain ⟨-, outcome⟩ := checkFile_outcome check
    split at run
    · rename_i copy
      exact copyFile_outcome copy run
    · rename_i notCopy
      obtain ⟨rfl, rfl⟩ : _ = result ∧ middle = store' := by simpa using run
      apply outcome_checksumRepoSize
      rcases outcome with copy | copy | outcome
      · exact absurd (.inl copy) notCopy
      · exact absurd (.inr copy) notCopy
      · exact outcome

theorem Outcome.congr (outcome : Outcome f param world store result)
    (same : store' (paramPathFile param) = store (paramPathFile param)) :
    Outcome f param world store' result := by
  cases outcome with
  | noOp is delta reference matched => exact .noOp is delta reference matched
  | checksum is reference matched stored =>
    obtain ⟨bytes, content, there, decoded, equal⟩ := stored
    exact .checksum is reference matched ⟨bytes, content, same.trans there, decoded, equal⟩
  | skip is => exact .skip is
  | copy content is read size hash stored =>
    exact .copy content is read size hash (same.trans stored)

end Spec

end BackupFile
