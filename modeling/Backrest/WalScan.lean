import Backrest.ExpireArchive
import Backrest.RangeScan

/-!
# The scan over the WAL of an archive id

The loop of `removeExpiredArchive` over WAL directories and files, seen as a
scan over tokens. In a dry run the scan logs the ranges of its tokens. In a real
run it removes the paths of the tokens that are not kept.
-/

namespace WalScan

open Text LexOrder BackupCommon BackupInfo FileTree Effects Repository ExpireArchive RangeScan

section Tokens

/-- The first 24 characters of a file decide if it is kept. -/
def fileToken (ranges : List ArchiveRange) (file : Str) : Token Str :=
  if ranges.any (·.keepsFile file) then .keep (strSubN file 0 24) else .drop (strSubN file 0 24)

def walFileList (storage : Storage) (archiveId walPath : Str) : List Str :=
  strLstSort (storageList storage (archivePath archiveId ++ [walPath]) walSegmentFile) .asc

def walPathList (storage : Storage) (archiveId : Str) : List Str :=
  strLstSort (storageList storage (archivePath archiveId) walSegmentDir) .asc

def pathTokens (storage : Storage) (archiveId : Str) (ranges : List ArchiveRange)
    (expireMax walPath : Str) : List (Token Str) :=
  if !ranges.any (·.keepsPath walPath) then [.whole walPath]
  else if walPath ≤ strSubN expireMax 0 16 then
    (walFileList storage archiveId walPath).map (fileToken ranges)
  else []

def walTokens (storage : Storage) (archiveId : Str) (ranges : List ArchiveRange)
    (expireMax : Str) : List (Token Str) :=
  (walPathList storage archiveId).flatMap (pathTokens storage archiveId ranges expireMax)

def expiredBelow (ranges : List ArchiveRange) (expireMax walPath : Str) (rest : List Str) : Bool :=
  !ranges.any (·.keepsPath walPath) ||
    (decide (walPath ≤ strSubN expireMax 0 16) &&
      (match rest with
        | [file] => walSegmentFile file && !ranges.any (·.keepsFile file)
        | _ => false))

end Tokens

section DryRun

/-- The range that is still to be logged. -/
def pendingRange (archiveExpire : ArchiveExpired) : Option (Str × Str) :=
  archiveExpire.start.map (fun start => (start, archiveExpire.stop.getD []))

def rangeEvent (repoIdx : Nat) (archiveId : Str) (range : Str × Str) : LogEvent :=
  .removeArchive repoIdx archiveId range.1 range.2

structure Scans (repoIdx : Nat) (archiveId : Str) (w : World) (tokens : List (Token Str))
    (archiveExpire : ArchiveExpired) (m : Command ArchiveExpired)
    (after : ArchiveExpired) (closed : List (Str × Str)) : Prop where
  run : exec m w =
    (.ok after, { w with log := w.log ++ closed.map (rangeEvent repoIdx archiveId) })
  ranges : ∀ rest, ranges (pendingRange archiveExpire) (tokens ++ rest) =
    closed ++ RangeScan.ranges (pendingRange after) rest
  counted : (archiveExpire.start.isSome → 0 < archiveExpire.total) →
    after.start.isSome → 0 < after.total

variable {repoIdx : Nat} {archiveId : Str} {w : World} {archiveExpire : ArchiveExpired}

theorem scans_nil : Scans repoIdx archiveId w [] archiveExpire (pure archiveExpire)
    archiveExpire [] :=
  ⟨by simp, fun _ => rfl, fun h => h⟩

/-- The parts of a scan in sequence. The second part runs with the messages of the first. -/
theorem Scans.bind {tokens tokens' : List (Token Str)} {m : Command ArchiveExpired}
    {f : ArchiveExpired → Command ArchiveExpired} {mid after : ArchiveExpired}
    {closed closed' : List (Str × Str)}
    (first : Scans repoIdx archiveId w tokens archiveExpire m mid closed)
    (rest : Scans repoIdx archiveId
      { w with log := w.log ++ closed.map (rangeEvent repoIdx archiveId) } tokens' mid (f mid)
      after closed') :
    Scans repoIdx archiveId w (tokens ++ tokens') archiveExpire (m >>= f) after
      (closed ++ closed') := by
  refine ⟨?_, fun more => ?_, fun h => rest.counted (first.counted h)⟩
  · rw [exec_bind_of_ok first.run, rest.run]
    simp only [List.map_append, List.append_assoc]
  · rw [List.append_assoc, first.ranges, rest.ranges, List.append_assoc]

theorem logExpire_scans (key : Str) :
    ∃ after closed, Scans repoIdx archiveId w [.keep key] archiveExpire
      (logExpire repoIdx archiveId archiveExpire) after closed := by
  rw [logExpire]
  cases hs : archiveExpire.start with
  | none =>
    refine ⟨archiveExpire, [], by simp, fun rest => ?_, fun h => h⟩
    simp [ranges, close, push, pendingRange, hs]
  | some start =>
    refine ⟨{ archiveExpire with start := none }, [(start, archiveExpire.stop.getD [])], rfl,
      fun rest => ?_, fun _ => ?_⟩
    · simp [ranges, close, push, pendingRange, hs]
    · simp

theorem removeWalFile_scans (dry : w.config.real = false) (walPath : Str)
    (ranges : List ArchiveRange) (file : Str) :
    ∃ after closed, Scans repoIdx archiveId w [fileToken ranges file] archiveExpire
      (removeWalFile repoIdx archiveId walPath ranges archiveExpire file) after closed := by
  rw [removeWalFile, fileToken]
  split
  · exact logExpire_scans _
  · refine ⟨{
        total := archiveExpire.total + 1
        start := some (archiveExpire.start.getD (strSubN file 0 24))
        stop := some (strSubN file 0 24) }, [], ?_, fun rest => ?_, fun _ _ => ?_⟩
    · rw [exec_bind_of_ok (exec_storageWrite _ _ _), write_of_dryRun dry, exec_pure, List.map_nil,
        List.append_nil]
    · cases hs : archiveExpire.start <;>
        simp [RangeScan.ranges, close, push, pendingRange, hs]
    · exact Nat.succ_pos _

/-- A loop is a scan when each of its rounds is one, with any messages logged before. -/
theorem foldlM_scans {items : List Str} {tokens : Str → List (Token Str)}
    {step : ArchiveExpired → Str → Command ArchiveExpired}
    (one : ∀ log archiveExpire item, ∃ after closed, Scans repoIdx archiveId { w with log := log }
      (tokens item) archiveExpire (step archiveExpire item) after closed) :
    ∃ after closed, Scans repoIdx archiveId w (items.flatMap tokens) archiveExpire
      (items.foldlM step archiveExpire) after closed := by
  induction items generalizing w archiveExpire with
  | nil => exact ⟨archiveExpire, [], scans_nil⟩
  | cons item rest ih =>
    obtain ⟨mid, closed, first⟩ := one w.log archiveExpire item
    have second : ∃ after closed', Scans repoIdx archiveId
        { w with log := w.log ++ closed.map (rangeEvent repoIdx archiveId) } (rest.flatMap tokens)
        mid (rest.foldlM step mid) after closed' :=
      ih (fun log archiveExpire item => one log archiveExpire item)
    obtain ⟨after, closed', later⟩ := second
    rw [List.foldlM_cons, List.flatMap_cons]
    exact ⟨after, closed ++ closed', Scans.bind first later⟩

theorem removeWalPath_scans (dry : w.config.real = false) (ranges : List ArchiveRange)
    (expireMax walPath : Str) :
    ∃ after closed, Scans repoIdx archiveId w
      (pathTokens (w.storage repoIdx) archiveId ranges expireMax walPath) archiveExpire
      (removeWalPath repoIdx archiveId ranges expireMax archiveExpire walPath) after closed := by
  rw [removeWalPath, pathTokens]
  split
  · refine ⟨{ total := archiveExpire.total + 1, start := some walPath, stop := some walPath }, [],
      ?_, fun rest => ?_, fun _ _ => ?_⟩
    · rw [exec_bind_of_ok (exec_storageWrite _ _ _), write_of_dryRun dry, exec_pure, List.map_nil,
        List.append_nil]
    · simp [RangeScan.ranges, close, push, pendingRange]
    · exact Nat.succ_pos _
  · split
    · have loop : ∃ after closed, Scans repoIdx archiveId w
          ((walFileList (w.storage repoIdx) archiveId walPath).flatMap
            (fun file => [fileToken ranges file])) archiveExpire
          ((walFileList (w.storage repoIdx) archiveId walPath).foldlM
            (removeWalFile repoIdx archiveId walPath ranges) archiveExpire) after closed :=
        foldlM_scans (fun log archiveExpire file =>
          removeWalFile_scans (w := { w with log := log }) dry walPath ranges file)
      obtain ⟨after, closed, files⟩ := loop
      refine ⟨after, closed, ?_, ?_, files.counted⟩
      · rw [exec_bind_of_ok (exec_storageRepoIdx _ _)]
        exact files.run
      · rw [← List.flatMap_pure_eq_map]
        exact files.ranges
    · exact ⟨archiveExpire, [], scans_nil⟩

/-- The whole loop of a dry run over the WAL directories. -/
theorem removeWalPaths_scans (dry : w.config.real = false) (repoIdx : Nat) (archiveId : Str)
    (ranges : List ArchiveRange) (expireMax : Str) :
    ∃ after closed, Scans repoIdx archiveId w
      (walTokens (w.storage repoIdx) archiveId ranges expireMax) {}
      ((walPathList (w.storage repoIdx) archiveId).foldlM
        (removeWalPath repoIdx archiveId ranges expireMax) {}) after closed :=
  foldlM_scans (fun log _ walPath =>
    removeWalPath_scans (w := { w with log := log }) dry ranges expireMax walPath)

end DryRun

section Covered
variable {storage : Storage} {archiveId expireMax walPath : Str} {ranges : List ArchiveRange}

/-- Does a logged range hold the path? Its start names a directory that was removed with all its
files, or the first of a run of files. -/
def coversRange (archiveId start stop : Str) : List Str → Bool
  | root :: id :: walPath :: rest =>
    decide (root = storageRepoArchive) && decide (id = archiveId) && walSegmentDir walPath &&
      (decide (walPath = start) ||
        (match rest with
          | [file] => walSegmentFile file && decide (start ≤ strSubN file 0 24) &&
              decide (strSubN file 0 24 ≤ stop)
          | _ => false))
  | _ => false

/-- Segments are stored below the first 16 characters of their names. -/
def SegmentsNamed (storage : Storage) : Prop :=
  ∀ archiveId walPath file, (storage.node (archivePath archiveId ++ [walPath, file])).isSome →
    walSegmentDir walPath = true → walSegmentFile file = true → strSubN file 0 16 = walPath

theorem strSubN_zero (s : Str) (n : Nat) : strSubN s 0 n = s.take n := rfl

theorem length_of_walSegmentDir (h : walSegmentDir walPath = true) : walPath.length = 16 := by
  obtain ⟨matched, rfl, length, -⟩ := matchN_some (of_decide_eq_true h)
  rw [List.append_nil, length]

theorem length_of_walSegmentFile {file : Str} (h : walSegmentFile file = true) :
    (strSubN file 0 24).length = 24 := by
  obtain ⟨rest, hr⟩ := Option.isSome_iff_exists.mp h
  obtain ⟨matched, rfl, length, -⟩ := matchN_some hr
  rw [strSubN_zero, List.length_take, List.length_append]
  omega

/-- The name of a history file has letters that no WAL directory has. -/
theorem not_history_of_walSegmentDir (h : walSegmentDir walPath = true) :
    walTimelineHistory walPath = false := by
  obtain ⟨matched, same, -, all⟩ := matchN_some (of_decide_eq_true h)
  rw [List.append_nil] at same
  subst same
  rw [walTimelineHistory]
  split
  · rename_i c rest timeline
    obtain ⟨_, rfl, -, -⟩ := matchN_some timeline
    rw [decide_eq_false_iff_not]
    rintro rfl
    have letter := all 'h' (by simp)
    revert letter
    decide
  · rfl

theorem mem_walFileList {file : Str} : file ∈ walFileList storage archiveId walPath ↔
    (storage.node (archivePath archiveId ++ [walPath, file])).isSome ∧
      walSegmentFile file = true := by
  rw [walFileList, mem_strLstSort, mem_storageList, List.append_assoc]
  rfl

theorem mem_walPathList : walPath ∈ walPathList storage archiveId ↔
    (storage.node (archivePath archiveId ++ [walPath])).isSome ∧ walSegmentDir walPath = true := by
  rw [walPathList, mem_strLstSort, mem_storageList]

theorem fileToken_key (file : Str) : (fileToken ranges file).key = strSubN file 0 24 := by
  rw [fileToken]
  split <;> rfl

theorem fileToken_isKeep (file : Str) :
    (fileToken ranges file).isKeep = ranges.any (·.keepsFile file) := by
  rw [fileToken]
  split
  · rename_i h
    rw [h]
    rfl
  · rename_i h
    exact (Bool.eq_false_iff.mpr h).symm

/-- A token of a directory is the directory itself or one of its files. -/
theorem mem_pathTokens {t : Token Str}
    (h : t ∈ pathTokens storage archiveId ranges expireMax walPath) :
    (ranges.any (·.keepsPath walPath) = false ∧ t = .whole walPath) ∨
      (ranges.any (·.keepsPath walPath) = true ∧ walPath ≤ strSubN expireMax 0 16 ∧
        ∃ file ∈ walFileList storage archiveId walPath, t = fileToken ranges file) := by
  rw [pathTokens] at h
  split at h
  · rename_i whole
    exact Or.inl ⟨by simpa using whole, List.mem_singleton.mp h⟩
  · rename_i whole
    split at h
    · rename_i scanned
      obtain ⟨file, mem, rfl⟩ := List.mem_map.mp h
      exact Or.inr ⟨by simpa using whole, scanned, file, mem, rfl⟩
    · cases h

theorem take_key (named : SegmentsNamed storage) (listed : walPath ∈ walPathList storage archiveId)
    {t : Token Str} (h : t ∈ pathTokens storage archiveId ranges expireMax walPath) :
    t.key.take 16 = walPath := by
  have dir := (mem_walPathList.mp listed).2
  rcases mem_pathTokens h with ⟨-, rfl⟩ | ⟨-, -, file, mem, rfl⟩
  · exact List.take_of_length_le (le_of_eq (length_of_walSegmentDir dir))
  · obtain ⟨stored, segment⟩ := mem_walFileList.mp mem
    rw [fileToken_key, strSubN_zero, List.take_take]
    exact named archiveId walPath file stored dir segment

/-- Directories are listed once each and in order. -/
theorem walPathList_sorted (storage : Storage) (archiveId : Str) :
    (walPathList storage archiveId).Pairwise (fun a b =>
      a < b ∧ a ∈ walPathList storage archiveId ∧ b ∈ walPathList storage archiveId) := by
  have listed : (walPathList storage archiveId).Pairwise
      (fun a b => a ≤ b ∧ a ∈ walPathList storage archiveId ∧
        b ∈ walPathList storage archiveId) :=
    (strLstSort_asc_sorted _).imp_of_mem (fun ha hb le => ⟨le, ha, hb⟩)
  refine (listed.and (strLstSort_storageList_nodup _ _ _ _)).imp (fun {a b} => ?_)
  rintro ⟨⟨le, ha, hb⟩, different⟩
  exact ⟨lt_of_le_of_ne le different, ha, hb⟩

theorem walTokens_sorted (named : SegmentsNamed storage) :
    RangeScan.Sorted (walTokens storage archiveId ranges expireMax) := by
  constructor
  · rw [walTokens, List.pairwise_flatMap]
    constructor
    · intro walPath _
      rw [pathTokens]
      split
      · exact List.pairwise_singleton _ _
      · split
        · rw [List.pairwise_map]
          refine (strLstSort_asc_sorted _).imp (fun {a b} le => ?_)
          rw [fileToken_key, fileToken_key]
          exact take_le_take le 24
        · exact List.Pairwise.nil
    · refine (walPathList_sorted storage archiveId).imp (fun {a b} => ?_)
      rintro ⟨lt, ha, hb⟩ t ht t' ht'
      by_contra above
      have back := take_le_take (le_of_lt (not_le.mp above)) 16
      rw [take_key named ha ht, take_key named hb ht'] at back
      exact absurd lt (not_lt.mpr back)
  · intro t ht t' ht' same
    obtain ⟨a, ha, ht⟩ := List.mem_flatMap.mp ht
    obtain ⟨b, hb, ht'⟩ := List.mem_flatMap.mp ht'
    have path : a = b := by
      rw [← take_key named ha ht, ← take_key named hb ht', same]
    subst path
    rcases mem_pathTokens ht with ⟨whole, rfl⟩ | ⟨kept, -, file, -, rfl⟩
    · rcases mem_pathTokens ht' with ⟨-, rfl⟩ | ⟨kept, -, -⟩
      · rfl
      · rw [whole] at kept
        cases kept
    · rcases mem_pathTokens ht' with ⟨whole, -⟩ | ⟨-, -, file', -, rfl⟩
      · rw [whole] at kept
        cases kept
      · rw [fileToken_key, fileToken_key] at same
        rw [fileToken_isKeep, fileToken_isKeep]
        simp only [ArchiveRange.keepsFile, same]

theorem whole_of_start (listed : walPath ∈ walPathList storage archiveId) {r : Str × Str}
    (hr : r ∈ RangeScan.ranges none (walTokens storage archiveId ranges expireMax))
    (start : walPath = r.1) : ranges.any (·.keepsPath walPath) = false := by
  rcases start_of_mem_ranges hr with ⟨b, hb⟩ | ⟨t, ht, -, key⟩
  · cases hb
  · obtain ⟨dir, hdir, ht⟩ := List.mem_flatMap.mp ht
    rcases mem_pathTokens ht with ⟨whole, rfl⟩ | ⟨-, -, file, mem, rfl⟩
    · change dir = r.1 at key
      rw [start, ← key]
      exact whole
    · -- A file name is longer than the name of a directory.
      have short := length_of_walSegmentDir (mem_walPathList.mp listed).2
      have long := length_of_walSegmentFile (mem_walFileList.mp mem).2
      rw [fileToken_key] at key
      rw [start, ← key] at short
      omega

theorem start_iff_whole (named : SegmentsNamed storage)
    (separate : Separate false (walTokens storage archiveId ranges expireMax))
    (listed : walPath ∈ walPathList storage archiveId) :
    (∃ r ∈ RangeScan.ranges none (walTokens storage archiveId ranges expireMax), walPath = r.1) ↔
      ranges.any (·.keepsPath walPath) = false := by
  constructor
  · rintro ⟨r, hr, start⟩
    exact whole_of_start listed hr start
  · intro whole
    have token : .whole walPath ∈ walTokens storage archiveId ranges expireMax := by
      refine List.mem_flatMap.mpr ⟨walPath, listed, ?_⟩
      simp [pathTokens, whole]
    obtain ⟨b, hb⟩ := exists_range_of_whole (walTokens_sorted named) none separate token
    exact ⟨(walPath, b), hb, rfl⟩

theorem inside_iff_expired (named : SegmentsNamed storage)
    (separate : Separate false (walTokens storage archiveId ranges expireMax))
    (listed : walPath ∈ walPathList storage archiveId)
    (kept : ranges.any (·.keepsPath walPath) = true) {file : Str}
    (mem : file ∈ walFileList storage archiveId walPath) :
    (∃ r ∈ RangeScan.ranges none (walTokens storage archiveId ranges expireMax),
      r.1 ≤ strSubN file 0 24 ∧ strSubN file 0 24 ≤ r.2) ↔
      walPath ≤ strSubN expireMax 0 16 ∧ ranges.any (·.keepsFile file) = false := by
  have sorted : RangeScan.Sorted (walTokens storage archiveId ranges expireMax) :=
    walTokens_sorted named
  obtain ⟨stored, segment⟩ := mem_walFileList.mp mem
  have dir := (mem_walPathList.mp listed).2
  by_cases scanned : walPath ≤ strSubN expireMax 0 16
  · have token : fileToken ranges file ∈ walTokens storage archiveId ranges expireMax := by
      refine List.mem_flatMap.mpr ⟨walPath, listed, ?_⟩
      rw [pathTokens, kept, if_neg (by simp), if_pos scanned]
      exact List.mem_map_of_mem mem
    have key : (fileToken ranges file).key = strSubN file 0 24 := fileToken_key file
    constructor
    · rintro ⟨r, hr, inside⟩
      refine ⟨scanned, ?_⟩
      by_contra keeps
      rw [← key] at inside
      refine not_mem_range_of_keep sorted (by simp) token ?_ hr inside
      rw [fileToken_isKeep]
      exact Bool.not_eq_false _ ▸ keeps
    · rintro ⟨-, removed⟩
      rw [← key]
      apply exists_range_of_removed sorted none (by simp) separate token
      rw [fileToken_isKeep, removed]
  · constructor
    · rintro ⟨r, hr, lower, upper⟩
      -- The stop of a range is a scanned file, which is below, or a directory that stands alone.
      have first := named archiveId walPath file stored dir segment
      rcases stop_of_mem_ranges hr with none | drop | ⟨whole, alone⟩
      · cases none
      · obtain ⟨other, hother, ht⟩ := List.mem_flatMap.mp drop
        have below := take_le_take upper 16
        rw [strSubN_zero, List.take_take, Nat.min_eq_left (by omega), ← strSubN_zero, first] at below
        have key := take_key named hother ht
        change r.2.take 16 = other at key
        rw [key] at below
        rcases mem_pathTokens ht with ⟨-, absurd⟩ | ⟨-, bound, -⟩
        · cases absurd
        · exact absurd (le_trans below bound) scanned
      · obtain ⟨other, hother, ht⟩ := List.mem_flatMap.mp whole
        have short : r.2.length = 16 := by
          rcases mem_pathTokens ht with ⟨-, same⟩ | ⟨-, -, file', -, same⟩
          · cases same
            exact length_of_walSegmentDir (mem_walPathList.mp hother).2
          · rw [fileToken] at same
            split at same <;> cases same
        have equal : strSubN file 0 24 = r.2 := le_antisymm upper (alone ▸ lower)
        have long := length_of_walSegmentFile segment
        rw [equal] at long
        omega
    · rintro ⟨below, -⟩
      exact absurd below scanned

theorem coversRange_iff_expired (named : SegmentsNamed storage)
    (separate : Separate false (walTokens storage archiveId ranges expireMax))
    (listed : walPath ∈ walPathList storage archiveId) {rest : List Str}
    (stored : (storage.node (archivePath archiveId ++ walPath :: rest)).isSome) :
    (∃ r ∈ RangeScan.ranges none (walTokens storage archiveId ranges expireMax),
      coversRange archiveId r.1 r.2 (archivePath archiveId ++ walPath :: rest) = true) ↔
      expiredBelow ranges expireMax walPath rest = true := by
  have dir := (mem_walPathList.mp listed).2
  cases kept : ranges.any (·.keepsPath walPath) with
  | false =>
    obtain ⟨r, hr, start⟩ := (start_iff_whole named separate listed).mpr kept
    constructor
    · intro _
      simp [expiredBelow, kept]
    · intro _
      refine ⟨r, hr, ?_⟩
      rw [start] at dir
      simp [coversRange, archivePath, start, dir]
  | true =>
    have other : ∀ r ∈ RangeScan.ranges none (walTokens storage archiveId ranges expireMax),
        walPath ≠ r.1 := by
      intro r hr start
      have whole := (start_iff_whole named separate listed).mp ⟨r, hr, start⟩
      rw [kept] at whole
      cases whole
    rcases rest with _ | ⟨file, _ | ⟨below, more⟩⟩
    · constructor
      · rintro ⟨r, hr, covers⟩
        simp [coversRange, archivePath, other r hr] at covers
      · intro expired
        simp [expiredBelow, kept] at expired
    · by_cases segment : walSegmentFile file = true
      · have mem : file ∈ walFileList storage archiveId walPath :=
          mem_walFileList.mpr ⟨stored, segment⟩
        have inside := inside_iff_expired named separate listed kept mem
        constructor
        · rintro ⟨r, hr, covers⟩
          simp only [coversRange, archivePath, List.cons_append, List.nil_append, decide_true,
            Bool.true_and, dir, other r hr, decide_false, Bool.false_or, segment, Bool.and_eq_true,
            decide_eq_true_eq] at covers
          obtain ⟨scanned, removed⟩ := inside.mp ⟨r, hr, covers⟩
          simp [expiredBelow, kept, scanned, segment, removed]
        · intro expired
          simp only [expiredBelow, kept, Bool.not_true, Bool.false_or, segment, Bool.true_and,
            Bool.and_eq_true, decide_eq_true_eq, Bool.not_eq_true'] at expired
          obtain ⟨r, hr, bounds⟩ := inside.mpr expired
          exact ⟨r, hr, by simp [coversRange, archivePath, dir, segment, bounds]⟩
      · constructor
        · rintro ⟨r, hr, covers⟩
          simp [coversRange, archivePath, other r hr, segment] at covers
        · intro expired
          simp [expiredBelow, kept, segment] at expired
    · constructor
      · rintro ⟨r, hr, covers⟩
        simp [coversRange, archivePath, other r hr] at covers
      · intro expired
        simp [expiredBelow, kept] at expired

/-- The keys before a directory that is removed whole are below its name. -/
theorem walTokens_group (named : SegmentsNamed storage) :
    (walTokens storage archiveId ranges expireMax).Pairwise
      (fun t t' => ∀ k, t' = .whole k → t.key < k) := by
  rw [walTokens, List.pairwise_flatMap]
  constructor
  · intro walPath _
    rw [pathTokens]
    split
    · exact List.pairwise_singleton _ _
    · split
      · rw [List.pairwise_map]
        refine List.pairwise_of_forall (fun file file' k same => ?_)
        rw [fileToken] at same
        split at same <;> cases same
      · exact List.Pairwise.nil
  · refine (walPathList_sorted storage archiveId).imp (fun {a b} => ?_)
    rintro ⟨lt, ha, hb⟩ t ht t' ht' k rfl
    by_contra above
    have back := take_le_take (not_lt.mp above) 16
    have path : k.take 16 = b := take_key named hb ht'
    rw [take_key named ha ht, path] at back
    exact absurd lt (not_lt.mpr back)

/-- When a directory is removed whole while a range is pending, something is removed that no
logged range holds. -/
theorem exists_unlogged (named : SegmentsNamed storage)
    (mixed : ¬ Separate false (walTokens storage archiveId ranges expireMax)) :
    ∃ walPath ∈ walPathList storage archiveId, ∃ rest,
      (storage.node (archivePath archiveId ++ walPath :: rest)).isSome ∧
      expiredBelow ranges expireMax walPath rest = true ∧
      ∀ r ∈ RangeScan.ranges none (walTokens storage archiveId ranges expireMax),
        coversRange archiveId r.1 r.2 (archivePath archiveId ++ walPath :: rest) = false := by
  have sorted : RangeScan.Sorted (walTokens storage archiveId ranges expireMax) :=
    walTokens_sorted named
  rcases lost_of_not_separate sorted none (walTokens_group named) (by simp) mixed with
    ⟨p, hp, -⟩ | ⟨t, ht, removed, apart⟩
  · cases hp
  · obtain ⟨walPath, listed, ht⟩ := List.mem_flatMap.mp ht
    have outside : ∀ r ∈ RangeScan.ranges none (walTokens storage archiveId ranges expireMax),
        ¬ (r.1 ≤ t.key ∧ t.key ≤ r.2) := by
      rintro r hr ⟨lower, upper⟩
      rcases apart r hr with below | before
      · exact absurd upper (not_le.mpr below)
      · exact absurd lower (not_le.mpr before)
    rcases mem_pathTokens ht with ⟨whole, rfl⟩ | ⟨kept, scanned, file, mem, rfl⟩
    · refine ⟨walPath, listed, [], (mem_walPathList.mp listed).1, by simp [expiredBelow, whole],
        fun r hr => ?_⟩
      have other : walPath ≠ r.1 := by
        intro start
        refine outside r hr ⟨le_of_eq start.symm, ?_⟩
        have bounds := start_le_stop sorted none (by simp) hr
        exact start ▸ bounds
      simp [coversRange, archivePath, other]
    · rw [fileToken_isKeep] at removed
      obtain ⟨stored, segment⟩ := mem_walFileList.mp mem
      refine ⟨walPath, listed, [file], stored, ?_, fun r hr => ?_⟩
      · simp [expiredBelow, scanned, segment, removed]
      · have other : walPath ≠ r.1 := fun start => by
          have whole := whole_of_start listed hr start
          rw [kept] at whole
          cases whole
        have apart := outside r hr
        rw [fileToken_key] at apart
        rw [Bool.eq_false_iff]
        intro covers
        simp only [coversRange, archivePath, List.cons_append, List.nil_append, decide_true,
          Bool.true_and, other, decide_false, Bool.false_or, Bool.and_eq_true,
          decide_eq_true_eq] at covers
        exact apart ⟨covers.2.1.2, covers.2.2⟩

end Covered

section RealRun
variable {repoIdx : Nat} {archiveId : Str} {v : World} {ranges : List ArchiveRange}
  {archiveExpire : ArchiveExpired}

def expiredPath (archiveId : Str) (ranges : List ArchiveRange) (expireMax walPath : Str) :
    List Str → Bool
  | root :: id :: dir :: rest =>
    decide (root = storageRepoArchive) && decide (id = archiveId) && decide (dir = walPath) &&
      expiredBelow ranges expireMax walPath rest
  | _ => false

theorem expiredPath_iff {expireMax walPath : Str} {p : List Str} :
    expiredPath archiveId ranges expireMax walPath p = true ↔
      ∃ rest, p = archivePath archiveId ++ walPath :: rest ∧
        expiredBelow ranges expireMax walPath rest = true := by
  constructor
  · intro h
    rcases p with _ | ⟨root, _ | ⟨id, _ | ⟨dir, rest⟩⟩⟩
    · cases h
    · cases h
    · cases h
    · simp only [expiredPath, Bool.and_eq_true, decide_eq_true_eq] at h
      obtain ⟨⟨⟨rfl, rfl⟩, rfl⟩, expired⟩ := h
      exact ⟨rest, rfl, expired⟩
  · rintro ⟨rest, rfl, expired⟩
    simp [expiredPath, archivePath, expired]

theorem logExpire_removes :
    RunRemoves repoIdx (fun _ => false) v (logExpire repoIdx archiveId archiveExpire) := by
  rw [logExpire]
  cases archiveExpire.start with
  | none => exact runRemoves_pure _
  | some start => exact (runRemoves_logEvent _).after (fun _ _ _ => runRemoves_pure _)

theorem removeWalFile_removes (walPath file : Str) :
    RunRemoves repoIdx (fun p => v.config.real && (!ranges.any (·.keepsFile file) &&
        decide (p = archivePath archiveId ++ [walPath, file]))) v
      (removeWalFile repoIdx archiveId walPath ranges archiveExpire file) := by
  rw [removeWalFile]
  split
  · rename_i kept
    exact logExpire_removes.congr (fun p _ => by simp [kept])
  · rename_i kept
    refine ((runRemoves_storageWrite (fun t p => ?_)).bind
      (fun _ _ _ => runRemoves_pure _)).congr (fun p _ => Bool.or_false _)
    rw [node_remove, Bool.eq_false_iff.mpr kept]
    simp

theorem removeWalPath_removes (expireMax walPath : Str) :
    RunRemoves repoIdx (fun p => v.config.real && expiredPath archiveId ranges expireMax walPath p) v
      (removeWalPath repoIdx archiveId ranges expireMax archiveExpire walPath) := by
  rw [removeWalPath]
  split
  · rename_i whole
    have whole : ranges.any (·.keepsPath walPath) = false := by simpa using whole
    refine ((runRemoves_storageWrite (fun t p => ?_)).bind
      (fun _ _ _ => runRemoves_pure _)).congr (fun p _ => Bool.or_false _)
    rw [node_removeTree]
    have below : archivePath archiveId ++ [walPath] <+: p ↔
        expiredPath archiveId ranges expireMax walPath p = true := by
      rw [expiredPath_iff]
      constructor
      · rintro ⟨rest, rfl⟩
        exact ⟨rest, by simp, by simp [expiredBelow, whole]⟩
      · rintro ⟨rest, rfl, -⟩
        exact ⟨rest, by simp⟩
    simp only [below]
  · rename_i whole
    have kept : ranges.any (·.keepsPath walPath) = true := by simpa using whole
    split
    · rename_i scanned
      have loop : RunRemoves repoIdx
          (fun p => (walFileList (v.storage repoIdx) archiveId walPath).any
            (fun file => v.config.real && (!ranges.any (·.keepsFile file) &&
              decide (p = archivePath archiveId ++ [walPath, file])))) v
          ((walFileList (v.storage repoIdx) archiveId walPath).foldlM
            (removeWalFile repoIdx archiveId walPath ranges) archiveExpire) :=
        RunRemoves.foldlM _ (fun v' only b file _ => by
          rw [← only.config]
          exact removeWalFile_removes walPath file) _
      obtain ⟨after, v', run, removes⟩ := loop
      refine ⟨after, v', run, removes.congr (fun p entry => ?_)⟩
      -- A file that is stored and not kept is one of those the loop goes through.
      rw [Bool.eq_iff_iff, Bool.and_eq_true, expiredPath_iff, List.any_eq_true]
      constructor
      · rintro ⟨file, mem, expired⟩
        simp only [Bool.and_eq_true, Bool.not_eq_true', decide_eq_true_eq] at expired
        obtain ⟨real, removed, rfl⟩ := expired
        refine ⟨real, [file], rfl, ?_⟩
        simp [expiredBelow, kept, scanned, (mem_walFileList.mp mem).2, removed]
      · rintro ⟨real, rest, rfl, expired⟩
        rcases rest with _ | ⟨file, _ | ⟨_, _⟩⟩
        · simp [expiredBelow, kept] at expired
        · simp only [expiredBelow, kept, Bool.not_true, Bool.false_or, scanned, decide_true,
            Bool.true_and, Bool.and_eq_true, Bool.not_eq_true'] at expired
          refine ⟨file, mem_walFileList.mpr ⟨Option.isSome_iff_ne_none.mpr entry, expired.1⟩, ?_⟩
          simp [real, expired.2]
        · simp [expiredBelow, kept] at expired
    · rename_i scanned
      refine (runRemoves_pure _).congr (fun p _ => ?_)
      rw [Bool.eq_iff_iff, Bool.and_eq_true, expiredPath_iff]
      constructor
      · intro h
        cases h
      · rintro ⟨-, rest, -, expired⟩
        simp [expiredBelow, kept, scanned] at expired

/-- The whole loop over the WAL directories. -/
theorem removeWalPaths_removes (repoIdx : Nat) (archiveId : Str) (ranges : List ArchiveRange)
    (expireMax : Str) (dirs : List Str) :
    RunRemoves repoIdx (fun p => dirs.any (fun dir => v.config.real &&
        expiredPath archiveId ranges expireMax dir p)) v
      (dirs.foldlM (removeWalPath repoIdx archiveId ranges expireMax) {}) :=
  RunRemoves.foldlM _ (fun v' only b dir _ => by
    rw [← only.config]
    exact removeWalPath_removes expireMax dir) _

def olderHistory (archiveId timeline : Str) : List Str → Bool
  | [root, id, file] => decide (root = storageRepoArchive) && decide (id = archiveId) &&
      walTimelineHistory file && decide (strSubN file 0 8 < timeline)
  | _ => false

theorem olderHistory_iff {timeline : Str} {p : List Str} :
    olderHistory archiveId timeline p = true ↔ ∃ file, p = archivePath archiveId ++ [file] ∧
      walTimelineHistory file = true ∧ strSubN file 0 8 < timeline := by
  constructor
  · intro h
    rcases p with _ | ⟨root, _ | ⟨id, _ | ⟨file, _ | ⟨_, _⟩⟩⟩⟩
    · cases h
    · cases h
    · cases h
    · simp only [olderHistory, Bool.and_eq_true, decide_eq_true_eq] at h
      obtain ⟨⟨⟨rfl, rfl⟩, history⟩, older⟩ := h
      exact ⟨file, rfl, history, older⟩
    · cases h
  · rintro ⟨file, rfl, history, older⟩
    simp [olderHistory, archivePath, history, older]

theorem removeHistoryFile_removes (timeline file : Str) :
    RunRemoves repoIdx (fun p => v.config.real && (decide (strSubN file 0 8 < timeline) &&
        decide (p = archivePath archiveId ++ [file]))) v
      (removeHistoryFile repoIdx archiveId timeline file) := by
  rw [removeHistoryFile]
  split
  · rename_i older
    refine ((runRemoves_storageWrite (fun t p => ?_)).bind
      (fun _ _ _ => runRemoves_logEvent _)).congr (fun p _ => Bool.or_false _)
    rw [node_remove]
    simp [older]
  · rename_i kept
    exact (runRemoves_pure _).congr (fun p _ => by simp [kept])

theorem removeHistoryFiles_removes (repoIdx : Nat) (archiveId timeline : Str) :
    RunRemoves repoIdx (fun p => v.config.real && olderHistory archiveId timeline p) v
      (removeHistoryFiles repoIdx archiveId timeline) := by
  have loop : RunRemoves repoIdx (fun p => (strLstSort (storageList (v.storage repoIdx)
      (archivePath archiveId) walTimelineHistory) .asc).any (fun file => v.config.real &&
        (decide (strSubN file 0 8 < timeline) && decide (p = archivePath archiveId ++ [file])))) v
      ((strLstSort (storageList (v.storage repoIdx) (archivePath archiveId)
        walTimelineHistory) .asc).foldlM
          (fun _ file => removeHistoryFile repoIdx archiveId timeline file) PUnit.unit) :=
    RunRemoves.foldlM _ (fun v' only _ file _ => by
      rw [← only.config]
      exact removeHistoryFile_removes timeline file) _
  obtain ⟨a, v', run, removes⟩ := loop
  refine ⟨a, v', by rw [removeHistoryFiles, exec_bind_of_ok (exec_storageRepoIdx repoIdx v), run],
    removes.congr (fun p entry => ?_)⟩
  rw [Bool.eq_iff_iff, Bool.and_eq_true, olderHistory_iff, List.any_eq_true]
  simp only [mem_strLstSort, mem_storageList, Bool.and_eq_true, decide_eq_true_eq]
  constructor
  · rintro ⟨file, ⟨-, history⟩, real, older, rfl⟩
    exact ⟨real, file, rfl, history, older⟩
  · rintro ⟨real, file, rfl, history, older⟩
    exact ⟨file, ⟨Option.isSome_iff_ne_none.mpr entry, history⟩, real, older, rfl⟩

theorem logRetention_removes (retention : InfoBackupData) (backups : List InfoBackupData) :
    RunRemoves repoIdx (fun _ => false) v (logRetention repoIdx archiveId retention backups) := by
  have removes : RunRemoves repoIdx (fun _ => backups.any fun _ => false) v
      (logRetention repoIdx archiveId retention backups) := by
    refine RunRemoves.foldlM backups (fun v' _ _ data _ => ?_) _
    cases archiveRange retention data with
    | none => exact runRemoves_pure _
    | some range => exact runRemoves_logEvent _
  exact removes.congr (fun p _ => by simp)

theorem removeWal_removes (backups : List InfoBackupData) (retention : InfoBackupData)
    (start : Str) :
    RunRemoves repoIdx (fun p => v.config.real &&
        ((walPathList (v.storage repoIdx) archiveId).any (fun dir => expiredPath archiveId
          (archiveRangeList backups retention) (archiveExpireMax backups retention) dir p) ||
        olderHistory archiveId (strSubN start 0 8) p)) v
      (removeWal repoIdx archiveId backups retention start) := by
  refine logRetention_removes retention backups |>.after (fun _ v' first => ?_)
  have listed : walPathList (v.storage repoIdx) archiveId =
      walPathList (v'.storage repoIdx) archiveId :=
    strLstSort_storageList_congr .asc (fun file _ => by rw [first.node]; rfl)
  rw [listed, ← first.only.config]
  obtain ⟨archiveExpire, v₁, run, removes⟩ := @removeWalPaths_removes v' repoIdx archiveId
    (archiveRangeList backups retention) (archiveExpireMax backups retention)
    (walPathList (v'.storage repoIdx) archiveId)
  have last : RunRemoves repoIdx (fun p => v₁.config.real &&
      olderHistory archiveId (strSubN start 0 8) p) v₁ (if archiveExpire.total = 0 then do
        logEvent (.noArchiveToRemove repoIdx archiveId)
        removeHistoryFiles repoIdx archiveId (strSubN start 0 8)
      else do
        let _ ← logExpire repoIdx archiveId archiveExpire
        removeHistoryFiles repoIdx archiveId (strSubN start 0 8)) := by
    split
    · refine (runRemoves_logEvent _).after (fun _ v₂ quiet => ?_)
      rw [← quiet.only.config]
      exact removeHistoryFiles_removes repoIdx archiveId _
    · refine logExpire_removes.after (fun _ v₂ quiet => ?_)
      rw [← quiet.only.config]
      exact removeHistoryFiles_removes repoIdx archiveId _
  obtain ⟨a, v₂, ends, gone⟩ := last
  refine ⟨a, v₂, ?_, (removes.trans gone).congr (fun p _ => ?_)⟩
  · rw [exec_bind_of_ok (exec_storageRepoIdx repoIdx v')]
    exact (exec_bind_of_ok run).trans ends
  · rw [removes.only.config, Bool.and_or_distrib_left]
    cases v'.config.real <;> simp

end RealRun

end WalScan
