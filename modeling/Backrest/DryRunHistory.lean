import Backrest.DryRunRemove
import Backrest.ExpireHistory

/-!
# The history in a dry run

The history is listed from the default repository and removed from the one that
is expired. The dry run and the real run remove the same when the repository has
all that the listing says, and the default repository still has it in the real
run.
-/

namespace DryRunHistory

open Text LexOrder BackupCommon BackupManifest BackupInfo FileTree Effects Repository Expire
open ExpireArchive ExpireCommand DryRun DryRunExpire DryRunRemove
open ExpireHistory (fileExpired fileGone yearGone retentionLabel)

variable {S : Nat → Storage} {R : List Nat} {i : Nat}

section History

/-- History manifests are stored below the year of their label. -/
def HistoryNamed (storage : Storage) : Prop :=
  ∀ year file, (storage.node (historyPath year ++ [file])).isSome →
    historyFileName file = true → strSubN file 0 4 = year

theorem not_mem_rewritten_history (year : Str) (rest : List Str) :
    historyPath year ++ rest ∉ rewritten := by
  intro mem
  simp only [rewritten, historyPath, infoBackupFile, infoBackupFileCopy, List.cons_append,
    List.mem_cons, List.cons.injEq, List.not_mem_nil, or_false, reduceCtorEq,
    and_false] at mem

variable {year : Str} {e : LogEvent} {info : InfoBackup}

theorem not_archiveScope_history (h : historyYearName year = true) (rest : List Str) :
    ¬ archiveScope (historyPath year ++ rest) := by
  rintro ((⟨label, same | same⟩ | ⟨label, more, matched, same⟩) | ⟨more, same⟩)
  · simp only [historyPath, manifestFileName, List.cons_append, List.cons.injEq] at same
    rw [same.2.2.1] at h
    revert h
    decide
  · simp only [historyPath, manifestCopyFileName, List.cons_append, List.cons.injEq] at same
    rw [same.2.2.1] at h
    revert h
    decide
  · simp only [historyPath, List.cons_append, List.cons.injEq] at same
    exact ne_history_of_labelAny matched same.2.1
  · exact archive_ne_backup (List.cons.inj same).1.symm

def yearEvents (storage : Storage) (i : Nat) (current : List Str) (minLabel year : Str) :
    List LogEvent :=
  if year < strSubN minLabel 0 4 then [.removeHistoryPath i year]
  else if year = strSubN minLabel 0 4 then
    ((strLstSort (storageList storage (historyPath year) historyFileName) .desc).filter
      (fileExpired current minLabel)).map (.removeHistoryManifest i)
  else []

def historyYears (storage : Storage) : List Str :=
  strLstSort (storageList storage [storageRepoBackup, backupPathHistory] historyYearName) .asc

def historyEvents (storage : Storage) (i : Nat) (current : List Str) (minLabel : Str) :
    List LogEvent :=
  (historyYears storage).flatMap (yearEvents storage i current minLabel)

variable {storage storage' : Storage} {current : List Str} {minLabel : Str} {years : List Str}

theorem mem_historyEvents : e ∈ historyEvents storage i current minLabel ↔
    (∃ year, (storage.node (historyPath year)).isSome ∧ historyYearName year = true ∧
      year < strSubN minLabel 0 4 ∧ e = .removeHistoryPath i year) ∨
    ∃ file, (storage.node (historyPath (strSubN minLabel 0 4))).isSome ∧
      historyYearName (strSubN minLabel 0 4) = true ∧
      (storage.node (historyPath (strSubN minLabel 0 4) ++ [file])).isSome ∧
      historyFileName file = true ∧ fileExpired current minLabel file = true ∧
      e = .removeHistoryManifest i file := by
  have listed (year : Str) : year ∈ historyYears storage ↔
      (storage.node (historyPath year)).isSome ∧ historyYearName year = true := by
    rw [historyYears, mem_strLstSort, mem_storageList]
    rfl
  rw [historyEvents, List.mem_flatMap]
  constructor
  · rintro ⟨year, hy, he⟩
    obtain ⟨stored, named⟩ := (listed year).mp hy
    rw [yearEvents] at he
    split at he
    · rename_i older
      exact Or.inl ⟨year, stored, named, older, List.mem_singleton.mp he⟩
    · split at he
      · rename_i same
        subst same
        obtain ⟨file, hf, rfl⟩ := List.mem_map.mp he
        obtain ⟨mem, expired⟩ := List.mem_filter.mp hf
        obtain ⟨fileStored, matched⟩ := mem_storageList.mp (mem_strLstSort.mp mem)
        exact Or.inr ⟨file, stored, named, fileStored, matched, expired, rfl⟩
      · cases he
  · rintro (⟨year, stored, named, older, rfl⟩ | ⟨file, stored, named, fileStored, matched, expired, rfl⟩)
    · refine ⟨year, (listed year).mpr ⟨stored, named⟩, ?_⟩
      rw [yearEvents, if_pos older]
      exact List.mem_singleton.mpr rfl
    · refine ⟨_, (listed _).mpr ⟨stored, named⟩, ?_⟩
      rw [yearEvents, if_neg (lt_irrefl _), if_pos rfl]
      refine List.mem_map_of_mem (List.mem_filter.mpr ⟨?_, expired⟩)
      exact mem_strLstSort.mpr (mem_storageList.mpr ⟨fileStored, matched⟩)

/-- More history gives more messages. -/
theorem historyEvents_mono
    (below : ∀ year rest, historyYearName year = true →
      (storage.node (historyPath year ++ rest)).isSome →
      (storage'.node (historyPath year ++ rest)).isSome)
    (mem : e ∈ historyEvents storage i current minLabel) :
    e ∈ historyEvents storage' i current minLabel := by
  have path (year : Str) (named : historyYearName year = true)
      (stored : (storage.node (historyPath year)).isSome) :
      (storage'.node (historyPath year)).isSome := by
    have above := below year [] named
    rw [List.append_nil] at above
    exact above stored
  rw [mem_historyEvents] at mem ⊢
  rcases mem with ⟨year, stored, named, rest⟩ | ⟨file, stored, named, fileStored, rest⟩
  · exact Or.inl ⟨year, path year named stored, named, rest⟩
  · exact Or.inr ⟨file, path _ named stored, named, below _ _ named fileStored, rest⟩

theorem yearEvents_later (later : strSubN minLabel 0 4 < year) :
    yearEvents storage i current minLabel year = [] := by
  rw [yearEvents, if_neg (not_lt.mpr (le_of_lt later)), if_neg (ne_of_gt later)]

/-- After a year that is kept whole there is nothing to log. -/
theorem flatMap_yearEvents_later (older : ¬ year < strSubN minLabel 0 4)
    (other : year ≠ strSubN minLabel 0 4) (sorted : (year :: years).Pairwise (· < ·)) :
    (year :: years).flatMap (yearEvents storage i current minLabel) = [] := by
  have later : strSubN minLabel 0 4 < year := lt_of_le_of_ne (not_lt.mp older) (Ne.symm other)
  rw [List.flatMap_eq_nil_iff]
  intro y hy
  rcases List.mem_cons.mp hy with rfl | hy
  · exact yearEvents_later later
  · exact yearEvents_later (lt_trans later ((List.pairwise_cons.mp sorted).1 y hy))

theorem historyYears_sorted (storage : Storage) : (historyYears storage).Pairwise (· < ·) :=
  ((strLstSort_asc_sorted _).and (strLstSort_storageList_nodup _ _ _ _)).imp
    (fun h => lt_of_le_of_ne h.1 h.2)

theorem exec_removeHistoryYears_dry {w : World} (dry : w.config.real = false)
    (sorted : years.Pairwise (· < ·)) :
    exec (removeHistoryYears i current minLabel years) w = (.ok ⟨⟩, { w with
      log := w.log ++ years.flatMap
        (yearEvents (w.storage w.config.repoDefault) i current minLabel) }) := by
  induction years generalizing w with
  | nil => simp [removeHistoryYears]
  | cons year rest ih =>
    have sortedRest := (List.pairwise_cons.mp sorted).2
    rw [removeHistoryYears]
    split
    · rename_i older
      have later := ih (w := { w with log := w.log ++ [.removeHistoryPath i year] }) dry sortedRest
      rw [exec_bind_of_ok (exec_logEvent _ _), exec_bind_of_ok (exec_storageWrite _ _ _),
        write_of_dryRun (w := { w with log := w.log ++ [.removeHistoryPath i year] }) dry, later,
        List.flatMap_cons, yearEvents, if_pos older, List.append_assoc]
    · rename_i older
      split
      · rename_i same
        have files : exec ((strLstSort (storageList (w.storage w.config.repoDefault)
            (historyPath year) historyFileName) .desc).foldlM
              (fun _ file => removeHistoryManifest i current minLabel year file) ⟨⟩) w =
            (.ok ⟨⟩, { w with
              log := w.log ++ yearEvents (w.storage w.config.repoDefault) i current minLabel year }) := by
          rw [yearEvents, if_neg older, if_pos same]
          refine exec_foldlM_said _ (fun log file => ?_)
          by_cases expired : fileExpired current minLabel file = true
          · have removes : removeHistoryManifest i current minLabel year file = (do
                logEvent (.removeHistoryManifest i file)
                storageWrite i (·.remove (historyPath year ++ [file]))) := if_pos expired
            rw [removes, exec_bind_of_ok (exec_logEvent _ _), exec_storageWrite, if_pos expired,
              write_of_dryRun (w := { w with log := log ++ [.removeHistoryManifest i file] }) dry]
          · have keeps : removeHistoryManifest i current minLabel year file = pure ⟨⟩ :=
              if_neg expired
            rw [keeps, exec_pure, if_neg expired, List.append_nil]
        have later := ih (w := { w with
          log := w.log ++ yearEvents (w.storage w.config.repoDefault) i current minLabel year })
          dry sortedRest
        rw [exec_bind_of_ok (exec_storageRepo w), exec_bind_of_ok files, later, List.flatMap_cons,
          List.append_assoc]
      · rename_i other
        rw [flatMap_yearEvents_later older other sorted, List.append_nil, exec_pure]

/-- The messages of a year cover what a real run removes of it. -/
theorem covered_yearEvents (named : HistoryNamed storage) (year : Str) (p : List Str) :
    covered i (yearEvents storage i current minLabel year) p =
      yearGone storage current minLabel year p := by
  rw [covered, yearEvents, yearGone]
  split
  · simp [covers]
  · split
    · rename_i same
      rw [List.any_map, List.any_filter, Bool.eq_iff_iff, List.any_eq_true, List.any_eq_true]
      refine exists_congr (fun file => and_congr_right (fun mem => ?_))
      obtain ⟨stored, matched⟩ := mem_storageList.mp (mem_strLstSort.mp mem)
      simp [covers, fileGone, named year file stored matched]
    · rfl

def historyLog (storage : Storage) (i : Nat) (info : InfoBackup) (minLabel : Str) : List LogEvent :=
  historyEvents storage i (infoBackupDataLabelList info (fun _ => true)) minLabel

def HistoryShared (i : Nat) (info : InfoBackup) (days : Nat) (w : World) : Prop :=
  ∀ e ∈ historyLog (w.storage w.config.repoDefault) i info (retentionLabel w days),
    Names w.storage e ∧ e ∈ historyLog (left w w.config.repoDefault) i info (retentionLabel w days)

theorem exec_removeExpiredHistory_dry {w : World} (dry : w.config.real = false)
    (info : InfoBackup) {days : Nat} (set : (w.config.repo i).retentionHistory = some days) :
    exec (removeExpiredHistory info i) w = (.ok ⟨⟩, { w with
      log := w.log ++ historyLog (w.storage w.config.repoDefault) i info (retentionLabel w days) }) := by
  have label : exec (minBackupLabel days) w = (.ok (retentionLabel w days), w) := rfl
  rw [removeExpiredHistory, exec_bind_of_ok (exec_repoOptionIdx i w), set]
  dsimp only
  rw [exec_bind_of_ok label, exec_bind_of_ok (exec_storageRepo w)]
  exact exec_removeHistoryYears_dry dry (historyYears_sorted _)

theorem removeExpiredHistory_removes {v : World} (real : v.config.real = true)
    (named : HistoryNamed (v.storage v.config.repoDefault)) (info : InfoBackup) {days : Nat}
    (set : (v.config.repo i).retentionHistory = some days) :
    RunRemoves i
      (covered i (historyLog (v.storage v.config.repoDefault) i info (retentionLabel v days))) v
      (removeExpiredHistory info i) := by
  refine (ExpireHistory.removeExpiredHistory_removes set).congr (fun p _ => ?_)
  rw [real, Bool.true_and, covered, historyLog, historyEvents, List.any_flatMap]
  exact congrArg _ (funext fun year => (covered_yearEvents named year p).symm)

theorem historyLog_about (mem : e ∈ historyLog storage i info minLabel) : About i e := by
  intro j hj p
  rcases mem_historyEvents.mp mem with ⟨year, -, -, -, rfl⟩ | ⟨file, -, -, -, -, -, rfl⟩ <;>
    simp [covers, Ne.symm hj]

variable {w v : World}

section Both
variable (mirror : Mirror S R i archiveScope w v)
include mirror

theorem retentionLabel_same (days : Nat) : retentionLabel v days = retentionLabel w days := by
  rw [retentionLabel, retentionLabel, mirror.now, mirror.timeText]

/-- The real run lists what the log leaves of the default repository. -/
theorem mem_historyLog_left : e ∈ historyLog (v.storage w.config.repoDefault) i info minLabel ↔
      e ∈ historyLog (left w w.config.repoDefault) i info minLabel := by
  constructor
  · refine fun mem => historyEvents_mono (fun year rest _ stored => ?_) mem
    rwa [mirror.node_left _ (not_mem_rewritten_history year rest)] at stored
  · refine fun mem => historyEvents_mono (fun year rest _ stored => ?_) mem
    rwa [mirror.node_left _ (not_mem_rewritten_history year rest)]

/-- The real run finds no history that the dry run does not. -/
theorem historyNode_of_real {j : Nat} {rest : List Str}
    (stored : ((v.storage j).node (historyPath year ++ rest)).isSome) :
    ((S j).node (historyPath year ++ rest)).isSome := by
  have entry := Option.isSome_iff_ne_none.mp stored
  rw [(mirror.uncovered (not_mem_rewritten_history year rest) entry).2]
  exact stored

theorem historyShared_of_default
    (named : HistoryNamed (S i)) (default : w.config.repoDefault = i) (info : InfoBackup)
    (days : Nat) : HistoryShared i info days w := by
  intro e mem
  rw [default, mirror.kept] at mem ⊢
  refine ⟨?_, historyEvents_mono (fun year rest matched stored => ?_) mem⟩
  · rcases mem_historyEvents.mp mem with ⟨year, stored, -, -, rfl⟩ |
      ⟨file, -, -, stored, matched, -, rfl⟩
    · exact stored
    · rw [Names, named _ file stored matched]
      exact stored
  · rw [node_left, mirror.kept, if_neg (fun h =>
      not_archiveScope_history matched rest (mirror.within _ h))]
    exact stored

theorem removeExpiredHistory_mirror
    (named : HistoryNamed (S w.config.repoDefault)) (info : InfoBackup)
    (shared : ∀ days, (w.config.repo i).retentionHistory = some days →
      w.config.repoDefault ≠ i → HistoryShared i info days w) :
    Mirror S R i (fun _ => True) (exec (removeExpiredHistory info i) w).2
      (exec (removeExpiredHistory info i) v).2 := by
  cases set : (w.config.repo i).retentionHistory with
  | none =>
    rw [removeExpiredHistory, exec_bind_of_ok (exec_repoOptionIdx i w),
      exec_bind_of_ok (exec_repoOptionIdx i v), mirror.option, set]
    exact mirror.mono (fun _ _ => trivial)
  | some days =>
    have same : v.config.repoDefault = w.config.repoDefault := by rw [mirror.config]
    have all : HistoryShared i info days w := by
      by_cases default : w.config.repoDefault = i
      · rw [default] at named
        exact historyShared_of_default mirror named default info days
      · exact shared days set default
    obtain ⟨a, v', run, removes⟩ := removeExpiredHistory_removes (i := i) mirror.real
      (fun year file stored => named year file
        (same ▸ historyNode_of_real mirror stored)) info (by rw [mirror.option, set])
    rw [exec_removeExpiredHistory_dry mirror.dry info set, run]
    rw [same, retentionLabel_same mirror] at removes
    refine mirror.advance _ removes.only (fun p _ => removes.node p) (fun p _ _ => ?_)
      (fun e mem => historyLog_about mem) (fun e mem => mirror.kept ▸ (all e mem).1)
      (fun _ _ => trivial) (fun _ _ _ _ => trivial)
    rw [Bool.eq_iff_iff, covered, covered, List.any_eq_true, List.any_eq_true, mirror.kept]
    refine exists_congr (fun e => and_congr_left (fun _ => ⟨fun mem => ?_, fun mem => ?_⟩))
    · exact historyEvents_mono (fun year rest _ stored => historyNode_of_real mirror stored) mem
    · rw [mirror.kept.symm] at mem
      exact (mem_historyLog_left mirror).mpr (all e mem).2

theorem historyShared_of_exact (named : HistoryNamed (S w.config.repoDefault)) {days : Nat}
    (set : (w.config.repo i).retentionHistory = some days)
    (exact : Exact S i (exec (removeExpiredHistory info i) w).2
      (exec (removeExpiredHistory info i) v).2) : HistoryShared i info days w := by
  have same : v.config.repoDefault = w.config.repoDefault := by rw [mirror.config]
  obtain ⟨a, v', run, removes⟩ := removeExpiredHistory_removes (i := i) mirror.real
    (fun year file stored => named year file (same ▸ historyNode_of_real mirror stored)) info
    (by rw [mirror.option, set])
  rw [exec_removeExpiredHistory_dry mirror.dry info set, run, mirror.kept] at exact
  rw [same, retentionLabel_same mirror] at removes
  intro e mem
  rw [mirror.kept] at mem ⊢
  have names : Names S e := exact.2 e (List.mem_append_right _ mem)
  refine ⟨names, (mem_historyLog_left mirror).mp ?_⟩
  -- What the message says is removed was there until the real run removed it.
  have gone (year : Str) (rest : List Str) (matched : historyYearName year = true)
      (stored : ((S i).node (historyPath year ++ rest)).isSome)
      (covers : covers i e (historyPath year ++ rest) = true) :
      ∃ e' ∈ historyLog (v.storage w.config.repoDefault) i info (retentionLabel w days),
        DryRun.covers i e' (historyPath year ++ rest) = true := by
    have rare := not_mem_rewritten_history year rest
    have logged : covered i (w.log ++ historyLog (S w.config.repoDefault) i info
        (retentionLabel w days)) (historyPath year ++ rest) = true :=
      List.any_eq_true.mpr ⟨e, List.mem_append_right _ mem, covers⟩
    have removed := (exact.1 _ rare).trans (if_pos logged)
    rw [removes.node, mirror.same rare (not_archiveScope_history matched rest)] at removed
    cases h : covered i (historyLog (v.storage w.config.repoDefault) i info (retentionLabel w days))
      (historyPath year ++ rest) with
    | true => exact List.any_eq_true.mp h
    | false =>
      rw [h, if_neg Bool.false_ne_true] at removed
      rw [removed] at stored
      cases stored
  rcases mem_historyEvents.mp mem with ⟨year, -, matched, older, rfl⟩ |
    ⟨file, -, matched, listed, isFile, expired, rfl⟩
  · obtain ⟨e', mem', covers⟩ := gone year [] matched (by rwa [List.append_nil])
      (by simp [DryRun.covers])
    rw [List.append_nil] at covers
    rcases mem_historyEvents.mp mem' with ⟨year', -, -, -, rfl⟩ | ⟨file, -, -, -, -, -, rfl⟩
    · simp only [DryRun.covers, decide_true, Bool.true_and, decide_eq_true_eq] at covers
      obtain ⟨more, same⟩ := covers
      have equal : year' = year := @historyPath_inj year' year more [] (by rw [same, List.append_nil])
      rwa [equal] at mem'
    · simp [DryRun.covers, historyPath] at covers
  · have year := named _ file listed isFile
    rw [Names, year] at names
    obtain ⟨e', mem', covers⟩ := gone _ [file] matched names (by simp [DryRun.covers, year])
    rcases mem_historyEvents.mp mem' with ⟨year', -, -, older, rfl⟩ | ⟨file', -, -, -, -, -, rfl⟩
    · simp only [DryRun.covers, decide_true, Bool.true_and, decide_eq_true_eq] at covers
      obtain ⟨more, same⟩ := covers
      rw [historyPath_inj same] at older
      exact absurd older (lt_irrefl _)
    · simp only [DryRun.covers, decide_true, Bool.true_and, decide_eq_true_eq] at covers
      have equal := List.append_inj_right' covers rfl
      rw [List.cons.injEq] at equal
      rwa [equal.1]

end Both

end History

end DryRunHistory
