import Backrest.WalScan

/-!
# Pruning the WAL of an archive id

`removeExpiredArchive` prunes on two levels: it removes whole directories by the
first 16 characters of the range ends, and it looks at single files only in
directories up to that of the retention backup. The plain rule keeps a segment
that lies in some range. Cutting strings to their first characters keeps their
order, and that is why both levels together come to the plain rule.
-/

namespace ArchivePrune

open Text LexOrder BackupCommon BackupInfo FileTree Effects Repository ExpireArchive WalScan

def InRange (range : ArchiveRange) (segment : Str) : Prop :=
  range.start ≤ segment ∧ ∀ stop ∈ range.stop, segment ≤ stop

section Levels
variable {range : ArchiveRange} {ranges : List ArchiveRange} {expireMax file : Str}

theorem keepsFile_iff : range.keepsFile file = true ↔ InRange range (strSubN file 0 24) := by
  rw [ArchiveRange.keepsFile, InRange, Bool.and_eq_true, decide_eq_true_eq]
  cases range.stop with
  | none => simp
  | some stop => simp

/-- A range that holds a segment keeps its directory. -/
theorem keepsPath_of_inRange (inside : InRange range (strSubN file 0 24)) :
    range.keepsPath (strSubN file 0 16) = true := by
  obtain ⟨above, below⟩ := inside
  rw [ArchiveRange.keepsPath, decide_eq_true (strSubN_le_of_le above), Bool.true_and]
  cases hs : range.stop with
  | none => rfl
  | some stop => exact decide_eq_true (le_strSubN_of_le (below stop hs))

/-- A segment in a directory after that of the open range lies in the open range. -/
theorem inRange_of_later (later : strSubN expireMax 0 16 < strSubN file 0 16) :
    InRange ⟨expireMax, none⟩ (strSubN file 0 24) := by
  constructor
  · by_contra below
    have back := take_le_take (le_of_lt (not_le.mp below)) 16
    rw [strSubN_zero, List.take_take, Nat.min_eq_left (by omega)] at back
    exact absurd later (not_lt_of_ge back)
  · intro stop none
    cases none

theorem expiredBelow_iff (segment : walSegmentFile file = true)
    (opened : ⟨expireMax, none⟩ ∈ ranges) :
    expiredBelow ranges expireMax (strSubN file 0 16) [file] = true ↔
      ∀ range ∈ ranges, ¬ InRange range (strSubN file 0 24) := by
  have plain : ranges.any (·.keepsFile file) = true ↔
      ∃ range ∈ ranges, InRange range (strSubN file 0 24) := by
    simp only [List.any_eq_true, keepsFile_iff]
  rw [expiredBelow, segment, Bool.true_and]
  constructor
  · intro expired range mem inside
    have path : ranges.any (·.keepsPath (strSubN file 0 16)) = true :=
      List.any_eq_true.mpr ⟨range, mem, keepsPath_of_inRange inside⟩
    have kept := plain.mpr ⟨range, mem, inside⟩
    simp [path, kept] at expired
  · intro outside
    have removed : ranges.any (·.keepsFile file) = false := by
      by_contra kept
      obtain ⟨range, mem, inside⟩ := plain.mp (Bool.not_eq_false _ ▸ kept)
      exact outside range mem inside
    -- A directory that is not scanned is later than the open range.
    have scanned : strSubN file 0 16 ≤ strSubN expireMax 0 16 := by
      by_contra later
      exact outside _ opened (inRange_of_later (not_le.mp later))
    simp [removed, scanned]

end Levels

section Prune

/-- The loop of `removeExpiredArchive` over the WAL directories of an archive id. -/
def removeWalPaths (repoIdx : Nat) (archiveId : Str) (ranges : List ArchiveRange)
    (expireMax : Str) : Command ArchiveExpired := do
  let storage ← storageRepoIdx repoIdx
  (walPathList storage archiveId).foldlM (removeWalPath repoIdx archiveId ranges expireMax) {}

/-- `removeWal` prunes with this loop. -/
theorem removeWal_eq (repoIdx : Nat) (archiveId : Str) (backups : List InfoBackupData)
    (retention : InfoBackupData) (archiveStart : Str) :
    removeWal repoIdx archiveId backups retention archiveStart = (do
      logRetention repoIdx archiveId retention backups
      let archiveExpire ← removeWalPaths repoIdx archiveId (archiveRangeList backups retention)
        (archiveExpireMax backups retention)
      if archiveExpire.total = 0 then
        logEvent (.noArchiveToRemove repoIdx archiveId)
      else
        let _ ← logExpire repoIdx archiveId archiveExpire
      removeHistoryFiles repoIdx archiveId (strSubN archiveStart 0 8)) := by
  simp only [removeWal, removeWalPaths, bind_assoc]
  rfl

/-- Pruning removes a segment file exactly when its segment lies in none of the ranges. `named` is
the layout of the archive: `storageRepoPathExpression` puts a segment below the path of its first 16
characters, and finds it only there. -/
theorem removeWalPaths_iff {w : World} (real : w.config.real = true) (repoIdx : Nat)
    (archiveId : Str) (older : List ArchiveRange) (archiveExpireMax : Str) {walPath file : Str}
    (listed : walPath ∈ walPathList (w.storage repoIdx) archiveId)
    (stored : file ∈ walFileList (w.storage repoIdx) archiveId walPath)
    (named : strSubN file 0 16 = walPath) :
    (((exec (removeWalPaths repoIdx archiveId (older ++ [⟨archiveExpireMax, none⟩])
        archiveExpireMax) w).2.storage repoIdx).node
          (archivePath archiveId ++ [walPath, file]) = none) ↔
      ∀ range ∈ older ++ [⟨archiveExpireMax, none⟩], ¬ InRange range (strSubN file 0 24) := by
  obtain ⟨entry, segment⟩ := mem_walFileList.mp stored
  obtain ⟨after, v, run, removes⟩ := @removeWalPaths_removes w repoIdx archiveId
    (older ++ [⟨archiveExpireMax, none⟩]) archiveExpireMax
    (walPathList (w.storage repoIdx) archiveId)
  simp only [real, Bool.true_and] at removes
  rw [← expiredBelow_iff segment (by simp : (⟨archiveExpireMax, none⟩ : ArchiveRange) ∈ _), named,
    removeWalPaths, exec_bind_of_ok (exec_storageRepoIdx repoIdx w), run, removes.node]
  have gone : (walPathList (w.storage repoIdx) archiveId).any (fun dir =>
      expiredPath archiveId (older ++ [⟨archiveExpireMax, none⟩]) archiveExpireMax dir
        (archivePath archiveId ++ [walPath, file])) = true ↔
      expiredBelow (older ++ [⟨archiveExpireMax, none⟩]) archiveExpireMax walPath [file] = true := by
    rw [List.any_eq_true]
    constructor
    · rintro ⟨dir, -, expired⟩
      obtain ⟨rest, same, below⟩ := expiredPath_iff.mp expired
      simp only [archivePath, List.cons_append, List.nil_append, List.cons.injEq, true_and] at same
      obtain ⟨rfl, rfl⟩ := same
      exact below
    · intro below
      exact ⟨walPath, listed, expiredPath_iff.mpr ⟨[file], rfl, below⟩⟩
  rw [← gone]
  split
  · rename_i expired
    simp [expired]
  · rename_i kept
    simp only [kept, Bool.false_eq_true, iff_false]
    exact Option.isSome_iff_ne_none.mp entry

theorem archiveRangeList_eq {backups : List InfoBackupData} (order : Ordered backups)
    {retention : InfoBackupData} (mem : retention ∈ backups) {start : Str}
    (hstart : retention.backupArchiveStart = some start) :
    archiveExpireMax backups retention = start ∧
      ∃ older, archiveRangeList backups retention = older ++ [⟨start, none⟩] := by
  obtain ⟨before, later, rfl⟩ := List.append_of_mem mem
  obtain ⟨-, tail, cross⟩ := List.pairwise_append.mp order
  have above : ∀ data ∈ later, retention.backupLabel < data.backupLabel :=
    (List.pairwise_cons.mp tail).1
  have below : ∀ data ∈ before, data.backupLabel < retention.backupLabel :=
    fun data hd => cross data hd retention List.mem_cons_self
  constructor
  · have single : (before ++ retention :: later).filter
        (fun data => decide (data.backupLabel = retention.backupLabel)) = [retention] := by
      rw [List.filter_append, List.filter_cons_of_pos (by simp)]
      rw [List.filter_eq_nil_iff.mpr (fun data hd => by simpa using (below data hd).ne),
        List.filter_eq_nil_iff.mpr (fun data hd => by simpa using (above data hd).ne')]
      rfl
    rw [archiveExpireMax, single]
    simp [hstart]
  · refine ⟨before.filterMap (archiveRange retention), ?_⟩
    have none : later.filterMap (archiveRange retention) = [] := by
      rw [List.filterMap_eq_nil_iff]
      intro data hd
      rw [archiveRange, if_neg (not_le_of_gt (above data hd))]
    rw [archiveRangeList, List.filterMap_append, List.filterMap_cons, none]
    simp [archiveRange, hstart]

def prunedStorage : Storage :=
  ⟨[(archivePath "9.6-1".toList, .dir),
    (archivePath "9.6-1".toList ++ ["0000000100000000".toList], .dir),
    (walSegmentPath "9.6-1".toList "000000010000000000000001-a".toList, .file .other),
    (walSegmentPath "9.6-1".toList "000000010000000000000002-a".toList, .file .other)]⟩

def prunedWorld : World where
  now := 0
  timeText := fun _ => []
  config := { repo := fun _ => {} }
  storage := fun _ => prunedStorage

/-- The segment before the open range is removed. -/
theorem removeWalPaths_iff_first :
    ((exec (removeWalPaths 0 "9.6-1".toList ([] ++ [⟨"000000010000000000000002".toList, none⟩])
        "000000010000000000000002".toList) prunedWorld).2.storage 0).node
          (archivePath "9.6-1".toList ++
            ["0000000100000000".toList, "000000010000000000000001-a".toList]) = none := by
  refine (removeWalPaths_iff (by decide) 0 _ [] _ (by decide) (by decide) (by decide)).mpr ?_
  intro range mem inside
  rw [List.nil_append, List.mem_singleton] at mem
  subst mem
  exact absurd inside.1 (by decide)

end Prune

end ArchivePrune
