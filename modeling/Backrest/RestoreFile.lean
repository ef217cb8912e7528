import Backrest.BackupFile
import Backrest.RestoreQueue

/-!
# Restoring one file

A file of the data directory is kept when the delta finds it as the manifest says, and is
else copied from the repository, cut to nothing or made a hole. Either way the manifest says
what is there afterwards.
-/

namespace RestoreFile

open Text BackupCommon BackupManifest BackupFile
open RestoreQueue (RestoreFileParam)

section Code

structure PgFile where
  content : Bytes
  timeModified : Int
  deriving DecidableEq

/-- The files of the cluster by name. -/
abbrev Cluster := Str → Option PgFile

def Cluster.put (pg : Cluster) (path : Str) (file : PgFile) : Cluster :=
  fun other => if other = path then some file else pg other

/-- What the call meets: the repositories, the clock, and what is written by the time a filter
fails. -/
structure RestoreWorld where
  repo : Nat → Store
  now : Int
  written : Bytes := []

def deltaKeep (f : Filters) (param : RestoreFileParam) (pg : Cluster) : Option Cluster :=
  if param.delta ∧ ¬ param.pgFileZero then
    match pg param.pgFile with
    | none => none
    | some info =>
      if param.deltaForce then
        if info.content.length = param.pgFileSize ∧ info.timeModified = param.pgFileModified ∧
            info.timeModified < param.copyTimeBegin then some pg
        else none
      else if info.content.length = param.pgFileSize ∧
          (param.pgFileSize = 0 ∨ param.pgFileChecksum = f.hash info.content) then
        some (if info.timeModified ≠ param.pgFileModified then
          pg.put param.pgFile { info with timeModified := param.pgFileModified } else pg)
      else none
  else none

def closed (world : RestoreWorld) (param : RestoreFileParam) (content : Bytes) : PgFile where
  content := content
  timeModified := if param.pgFileModified ≠ 0 then param.pgFileModified else world.now

def truncateError (param : RestoreFileParam) : Error :=
  ⟨.fileWriteError, "unable to truncate '".toList ++ param.pgFile ++
    "': [22] Invalid argument".toList⟩

/-- An empty file, or one that `ftruncate` makes a hole. The size is cast to `off_t`. -/
def restoreEmpty (world : RestoreWorld) (param : RestoreFileParam) (pg : Cluster) :
    Except Error Bool × Cluster :=
  if param.pgFileZero then
    if param.pgFileSize < 2 ^ 63 then
      (.ok false, pg.put param.pgFile (closed world param (List.replicate param.pgFileSize 0)))
    else (.error (truncateError param), pg.put param.pgFile ⟨[], world.now⟩)
  else (.ok true, pg.put param.pgFile (closed world param []))

def paramRepoFile (param : RestoreFileParam) : Str :=
  repoPathFile param.repoFileReference param.repoFile param.repoFileCompressType

def checksumError (param : RestoreFileParam) (actual : Str) : Error :=
  ⟨.checksumError, "error restoring '".toList ++ param.pgFile ++ "': actual checksum '".toList ++
    actual ++ "' does not match expected checksum '".toList ++ param.pgFileChecksum ++ ['\'']⟩

def decode (f : Filters) (param : RestoreFileParam) (stored : Bytes) : Except Error Bytes :=
  repoDecode f param.repoFileCompressType (if param.cipherPass.isSome then .aes256Cbc else .none)
    param.cipherPass stored

def restoreCopy (f : Filters) (world : RestoreWorld) (param : RestoreFileParam) (pg : Cluster) :
    Except Error Bool × Cluster :=
  match world.repo param.repoIdx (paramRepoFile param) with
  | none => (.error ⟨.fileMissingError, "unable to open missing file '".toList ++
      paramRepoFile param ++ "' for read".toList⟩, pg)
  | some stored =>
    match decode f param stored with
    | .error e => (.error e, pg.put param.pgFile ⟨world.written, world.now⟩)
    | .ok content =>
      (if param.pgFileChecksum = f.hash content then .ok true
        else .error (checksumError param (f.hash content)),
        pg.put param.pgFile (closed world param content))

/-- Was the file copied, and the cluster afterwards. -/
def restoreFile (f : Filters) (world : RestoreWorld) (param : RestoreFileParam) (pg : Cluster) :
    Except Error Bool × Cluster :=
  match deltaKeep f param pg with
  | some pg => (.ok false, pg)
  | none =>
    if param.pgFileSize = 0 ∨ param.pgFileZero then restoreEmpty world param pg
    else restoreCopy f world param pg

end Code

section Claimed

def Holds (f : Filters) (world : RestoreWorld) (param : RestoreFileParam) (content : Bytes) : Prop :=
  ∃ stored, world.repo param.repoIdx (paramRepoFile param) = some stored ∧
    decode f param stored = .ok content

/-- The repository file is the one that the manifest entry describes. -/
structure Consistent (f : Filters) (world : RestoreWorld) (param : RestoreFileParam)
    (content : Bytes) : Prop where
  holds : Holds f world param content
  size : content.length = param.pgFileSize
  checksum : f.hash content = param.pgFileChecksum
  /-- No file is larger. -/
  offT : param.pgFileSize < 2 ^ 63

/-- No other file has the checksum. -/
def CollisionFree (f : Filters) (content : Bytes) : Prop :=
  ∀ other, f.hash other = f.hash content → other = content

/-- The file that the manifest entry describes. -/
def described (param : RestoreFileParam) (content : Bytes) : PgFile where
  content := if param.pgFileZero then List.replicate param.pgFileSize 0 else content
  timeModified := param.pgFileModified

def withDelta (param : RestoreFileParam) (delta deltaForce : Bool) : RestoreFileParam :=
  { param with delta := delta, deltaForce := deltaForce }

/-- The call ends well and leaves the described file at its place and all other files alone. -/
def Leaves (param : RestoreFileParam) (content : Bytes) (pg : Cluster)
    (outcome : Except Error Bool × Cluster) : Prop :=
  (∃ copied, outcome.1 = .ok copied) ∧ outcome.2 = pg.put param.pgFile (described param content)

def Agree (f : Filters) (world : RestoreWorld) (param : RestoreFileParam) (pg : Cluster)
    (content : Bytes) : Prop :=
  Leaves param content pg (restoreFile f world (withDelta param true false) pg) ∧
    ∀ force, Leaves param content pg (restoreFile f world (withDelta param false force) pg)

/-- The call gets to the copy. -/
def Copies (f : Filters) (param : RestoreFileParam) (pg : Cluster) : Prop :=
  deltaKeep f param pg = none ∧ param.pgFileSize ≠ 0 ∧ ¬ param.pgFileZero

end Claimed

section Results

variable {f : Filters} {world : RestoreWorld} {param : RestoreFileParam} {pg : Cluster}
  {content : Bytes}

theorem Cluster.put_same {path : Str} {file : PgFile} (here : pg path = some file) :
    pg.put path file = pg := by
  funext other
  simp only [Cluster.put]
  split
  next same => rw [same, here]
  next => rfl

theorem Cluster.put_inj {path : Str} {first second : PgFile}
    (same : pg.put path first = pg.put path second) : first = second := by
  have here := congrFun same path
  simp only [Cluster.put, if_true] at here
  exact Option.some.inj here

/-- A file that is closed has the time of the manifest, or that time is 0. -/
theorem closed_eq_iff :
    closed world param content = ⟨content, param.pgFileModified⟩ ↔
      param.pgFileModified ≠ 0 ∨ world.now = 0 := by
  rw [closed, PgFile.mk.injEq]
  by_cases zero : param.pgFileModified = 0
  · simp [zero]
  · simp [zero]

theorem deltaKeep_some {kept : Cluster} (consistent : Consistent f world param content)
    (free : CollisionFree f content) (notForce : param.deltaForce = false)
    (keep : deltaKeep f param pg = some kept) :
    kept = pg.put param.pgFile (described param content) := by
  unfold deltaKeep at keep
  simp only [notForce, Bool.false_eq_true, if_false] at keep
  split at keep
  next asked =>
    rw [described, if_neg asked.2]
    cases here : pg param.pgFile with
    | none =>
      rw [here] at keep
      cases keep
    | some info =>
      rw [here] at keep
      obtain ⟨found, left⟩ := Option.ite_none_right_eq_some.mp keep
      have same : info.content = content := by
        rcases found.2 with empty | checksum
        · have none : content.length = 0 := consistent.size.trans empty
          have none' : info.content.length = 0 := found.1.trans empty
          rw [List.length_eq_zero_iff.mp none, List.length_eq_zero_iff.mp none']
        · exact free info.content (checksum.symm.trans consistent.checksum.symm)
      rw [← Option.some.inj left]
      by_cases time : info.timeModified = param.pgFileModified
      · rw [if_neg (not_not_intro time), ← same, ← time]
        exact (Cluster.put_same here).symm
      · rw [if_pos time, same]
  next => cases keep

theorem deltaKeep_plain (force : Bool) : deltaKeep f (withDelta param false force) pg = none := by
  unfold deltaKeep
  simp [withDelta]

theorem restoreFile_written (consistent : Consistent f world param content)
    (notKept : deltaKeep f param pg = none) :
    ∃ copied, restoreFile f world param pg =
      (.ok copied, pg.put param.pgFile (closed world param (described param content).content)) := by
  rw [restoreFile, notKept]
  dsimp only
  by_cases zero : param.pgFileZero = true
  · rw [if_pos (Or.inr zero), restoreEmpty, if_pos zero, if_pos consistent.offT]
    simp only [described, if_pos zero]
    exact ⟨false, rfl⟩
  · simp only [described, if_neg zero]
    by_cases empty : param.pgFileSize = 0
    · have none : content.length = 0 := consistent.size.trans empty
      rw [if_pos (Or.inl empty), restoreEmpty, if_neg zero, List.length_eq_zero_iff.mp none]
      exact ⟨true, rfl⟩
    · obtain ⟨stored, here, decoded⟩ := consistent.holds
      rw [if_neg (not_or.mpr ⟨empty, zero⟩), restoreCopy, here]
      dsimp only
      rw [decoded]
      dsimp only
      rw [if_pos consistent.checksum.symm]
      exact ⟨true, rfl⟩

theorem Consistent.withDelta (consistent : Consistent f world param content) (delta force : Bool) :
    Consistent f world (RestoreFile.withDelta param delta force) content where
  holds := consistent.holds
  size := consistent.size
  checksum := consistent.checksum
  offT := consistent.offT

theorem leaves_written_iff {outcome : Except Error Bool × Cluster} {copied : Bool}
    (written : outcome =
      (.ok copied, pg.put param.pgFile (closed world param (described param content).content))) :
    Leaves param content pg outcome ↔ param.pgFileModified ≠ 0 ∨ world.now = 0 := by
  rw [Leaves, written]
  constructor
  · rintro ⟨-, same⟩
    exact closed_eq_iff.mp (Cluster.put_inj same)
  · intro time
    refine ⟨⟨copied, rfl⟩, ?_⟩
    exact congrArg (pg.put param.pgFile) (closed_eq_iff.mpr time)

/-- The file of a mismatching repository is copied, and then refused. -/
theorem restoreCopy_mismatch (holds : Holds f world param content)
    (mismatch : f.hash content ≠ param.pgFileChecksum) :
    (restoreCopy f world param pg).1 = .error (checksumError param (f.hash content)) := by
  obtain ⟨stored, here, decoded⟩ := holds
  rw [restoreCopy, here]
  dsimp only
  rw [decoded]
  dsimp only
  rw [if_neg (Ne.symm mismatch)]

/-- The restore with delta and the plain one agree with the manifest unless its time is 0, and
each refuses a repository file with another checksum. -/
theorem restoreFile_agree_iff (f : Filters) (world : RestoreWorld) (param : RestoreFileParam)
    (pg : Cluster) (content : Bytes) :
    (Consistent f world param content → CollisionFree f content →
      (Agree f world param pg content ↔ param.pgFileModified ≠ 0 ∨ world.now = 0)) ∧
    (Holds f world param content → f.hash content ≠ param.pgFileChecksum →
      Copies f param pg →
      (restoreFile f world param pg).1 = .error (checksumError param (f.hash content))) := by
  constructor
  · intro consistent free
    have plain (force : Bool) :
        Leaves param content pg (restoreFile f world (withDelta param false force) pg) ↔
          param.pgFileModified ≠ 0 ∨ world.now = 0 := by
      obtain ⟨copied, written⟩ := restoreFile_written (consistent.withDelta false force)
        (deltaKeep_plain force)
      exact leaves_written_iff written
    constructor
    · rintro ⟨-, leaves⟩
      exact (plain false).mp (leaves false)
    · intro time
      refine ⟨?_, fun force => (plain force).mpr time⟩
      cases keep : deltaKeep f (withDelta param true false) pg with
      | none =>
        obtain ⟨copied, written⟩ := restoreFile_written (consistent.withDelta true false) keep
        exact (leaves_written_iff written).mpr time
      | some kept =>
        have same := deltaKeep_some (consistent.withDelta true false) free rfl keep
        rw [Leaves, restoreFile, keep]
        exact ⟨⟨false, rfl⟩, same⟩
  · rintro holds mismatch ⟨notKept, some, notZero⟩
    rw [restoreFile, notKept]
    dsimp only
    rw [if_neg (not_or.mpr ⟨some, notZero⟩)]
    exact restoreCopy_mismatch holds mismatch

end Results

section Instance

/-- A repository with one file, and filters that pass everything. -/
def oneFilters : Filters where
  hash content :=
    if content = [97] then "86f7e437faa5a7fce15d1ddcb9eaeaea377667b8".toList
    else "da39a3ee5e6b4b0d3255bfef95601890afd80709".toList
  compress _ _ content := content
  decompress _ content := .ok content
  encrypt _ _ _ content := content
  decrypt _ _ content := .ok content
  pageChecksum _ _ _ := ⟨true, true, []⟩
  featureCompress := false
  infoSize content := content.length

def oneParam (timestamp : Int) : RestoreFileParam where
  repoFile := "pg_data/a".toList
  repoIdx := 0
  repoFileReference := "20201118-180000F".toList
  repoFileCompressType := .none
  pgFile := "/pg/a".toList
  pgFileChecksum := "86f7e437faa5a7fce15d1ddcb9eaeaea377667b8".toList
  pgFileZero := false
  pgFileSize := 1
  pgFileModified := timestamp
  pgFileMode := 0
  pgFileUser := none
  pgFileGroup := none
  copyTimeBegin := 1605722400
  delta := false
  deltaForce := false
  cipherPass := none

def oneWorld : RestoreWorld where
  repo _ path := if path = paramRepoFile (oneParam 0) then some [97] else none
  now := 1605722500

theorem oneFilters_collisionFree : CollisionFree oneFilters [97] := by
  intro other same
  by_contra differs
  simp only [oneFilters, if_neg differs, if_true] at same
  revert same
  decide

theorem one_consistent (timestamp : Int) :
    Consistent oneFilters oneWorld (oneParam timestamp) [97] where
  holds := ⟨[97], rfl, rfl⟩
  size := rfl
  checksum := rfl
  offT := Nat.one_lt_two_pow (by decide)

/-- A file with the content of the manifest entry and another time. -/
def sameFile : Cluster := fun path => if path = "/pg/a".toList then some ⟨[97], 1605722350⟩ else none

/-- Without the file, and with one that a delta restore keeps. -/
theorem restoreFile_agree_iff_one :
    (Agree oneFilters oneWorld (oneParam 1605722300) (fun _ => none) [97] ↔
      (oneParam 1605722300).pgFileModified ≠ 0 ∨ oneWorld.now = 0) ∧
    (deltaKeep oneFilters (withDelta (oneParam 1605722300) true false) sameFile).isSome ∧
      Agree oneFilters oneWorld (oneParam 1605722300) sameFile [97] := by
  refine ⟨(restoreFile_agree_iff oneFilters oneWorld (oneParam 1605722300) (fun _ => none) [97]).1
    (one_consistent _) oneFilters_collisionFree, rfl, ?_⟩
  exact ((restoreFile_agree_iff oneFilters oneWorld (oneParam 1605722300) sameFile [97]).1
    (one_consistent _) oneFilters_collisionFree).mpr (.inl (by decide))

/-- The time 0 is not set on a file that is copied. -/
theorem restoreFile_not_agree :
    ¬ ∀ (f : Filters) (world : RestoreWorld) (param : RestoreFileParam) (pg : Cluster)
        (content : Bytes), Consistent f world param content → CollisionFree f content →
      Agree f world param pg content := by
  intro all
  have plain := (all oneFilters oneWorld (oneParam 0) (fun _ => none) [97] (one_consistent 0)
    oneFilters_collisionFree).2 false
  have time := congrArg (Option.map PgFile.timeModified) (congrFun plain.2 "/pg/a".toList)
  revert time
  decide

end Instance

end RestoreFile
