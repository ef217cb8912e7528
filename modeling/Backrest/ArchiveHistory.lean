import Backrest.ArchivePrune
import Backrest.Newest

/-!
# Expiring timeline history files

A history file is removed when its timeline is older than that of the archive
start of one backup, the one selected for archive retention. Older backups of
the same archive id may still be listed, and they may have started on an older
timeline. The selected backup is described here by how many backups are newer.
-/

namespace ArchiveHistory

open Text LexOrder BackupCommon BackupInfo FileTree Effects Repository ExpireArchive WalScan Newest

section Selection
variable {info : InfoBackup} {type : BackupType} {n pgId : Nat}

structure Counts (info : InfoBackup) (type : BackupType) (pgId : Nat) (data : InfoBackupData) :
    Prop where
  listed : data ∈ info.backup
  pg : data.backupPgId = pgId
  type : archiveRetentionFilter type data.backupLabel = true

/-- Fewer than `n` backups of the type are newer, for whatever archive id. -/
def InRetention (info : InfoBackup) (type : BackupType) (n : Nat) (data : InfoBackupData) : Prop :=
  newer (infoBackupDataLabelList info (archiveRetentionFilter type)) data.backupLabel < n

structure RetentionBackup (info : InfoBackup) (type : BackupType) (n pgId : Nat)
    (data : InfoBackupData) : Prop where
  counts : Counts info type pgId data
  oldest : InRetention info type n data → ∀ d, Counts info type pgId d →
    InRetention info type n d → data.backupLabel ≤ d.backupLabel
  newest : ¬ InRetention info type n data → ∀ d, Counts info type pgId d →
    d.backupLabel ≤ data.backupLabel

theorem InRetention.of_le {a b : InfoBackupData} (h : InRetention info type n a)
    (le : a.backupLabel ≤ b.backupLabel) : InRetention info type n b :=
  lt_of_le_of_lt (newer_antitone _ le) h

theorem RetentionBackup.unique (distinct : (info.backup.map (·.backupLabel)).Nodup)
    {a b : InfoBackupData} (ha : RetentionBackup info type n pgId a)
    (hb : RetentionBackup info type n pgId b) : a = b := by
  apply eq_of_label distinct ha.counts.listed hb.counts.listed
  by_cases inA : InRetention info type n a
  · by_cases inB : InRetention info type n b
    · exact le_antisymm (ha.oldest inA b hb.counts inB) (hb.oldest inB a ha.counts inA)
    · exact absurd (inA.of_le (hb.newest inB a ha.counts)) inB
  · by_cases inB : InRetention info type n b
    · exact absurd (inB.of_le (ha.newest inA b hb.counts)) inA
    · exact le_antisymm (hb.newest inB a ha.counts) (ha.newest inA b hb.counts)

theorem globalBackupRetentionList_desc (distinct : (info.backup.map (·.backupLabel)).Nodup) :
    (globalBackupRetentionList info type).Pairwise (fun a b => b < a) := by
  have unique : (globalBackupRetentionList info type).Nodup :=
    (strLstSort_perm _ _).nodup_iff.mpr (distinct.filter _)
  have sorted : (globalBackupRetentionList info type).Pairwise (fun a b => b ≤ a) :=
    List.pairwise_reverse.mpr (strLstSort_asc_sorted _)
  exact (sorted.and unique).imp (fun h => lt_of_le_of_ne h.1 h.2.symm)

theorem mem_global {label : Str} : label ∈ globalBackupRetentionList info type ↔
    ∃ data ∈ info.backup, data.backupLabel = label ∧ archiveRetentionFilter type label = true := by
  rw [globalBackupRetentionList, mem_strLstSort, infoBackupDataLabelList, List.mem_filter,
    List.mem_map]
  constructor
  · rintro ⟨⟨data, hd, same⟩, passes⟩
    exact ⟨data, hd, same, passes⟩
  · rintro ⟨data, hd, same, passes⟩
    exact ⟨⟨data, hd, same⟩, passes⟩

theorem mem_local {label : Str} :
    label ∈ localBackupRetentionList info (globalBackupRetentionList info type) pgId ↔
      ∃ data, Counts info type pgId data ∧ data.backupLabel = label := by
  rw [localBackupRetentionList, List.mem_flatMap]
  constructor
  · rintro ⟨l, inGlobal, mem⟩
    obtain ⟨data, hd, rfl⟩ := List.mem_map.mp mem
    obtain ⟨listed, both⟩ := List.mem_filter.mp hd
    simp only [Bool.and_eq_true, decide_eq_true_eq] at both
    obtain ⟨rfl, pg⟩ := both
    obtain ⟨-, -, -, passes⟩ := mem_global.mp (List.mem_reverse.mp inGlobal)
    exact ⟨data, ⟨listed, pg, passes⟩, rfl⟩
  · rintro ⟨data, counts, rfl⟩
    refine ⟨data.backupLabel, List.mem_reverse.mpr
      (mem_global.mpr ⟨data, counts.listed, rfl, counts.type⟩), ?_⟩
    exact List.mem_map.mpr ⟨data, List.mem_filter.mpr ⟨counts.listed, by simp [counts.pg]⟩, rfl⟩

/-- A walk over an ascending list that takes each item at most once is ascending. -/
theorem pairwise_flatMap_lt {l : List Str} (asc : l.Pairwise (fun a b => a < b))
    {f : Str → List Str} (unique : ∀ a, (f a).Nodup) (same : ∀ a, ∀ b ∈ f a, b = a) :
    (l.flatMap f).Pairwise (fun a b => a < b) := by
  rw [List.pairwise_flatMap]
  constructor
  · intro a _
    refine (unique a).imp_of_mem (fun hb hc different => ?_)
    exact absurd ((same a _ hb).trans (same a _ hc).symm) different
  · refine asc.imp (fun {a b} lt c hc d hd => ?_)
    rw [same a c hc, same b d hd]
    exact lt

theorem local_asc (distinct : (info.backup.map (·.backupLabel)).Nodup) :
    (localBackupRetentionList info (globalBackupRetentionList info type) pgId).Pairwise
      (fun a b => a < b) := by
  refine pairwise_flatMap_lt (List.pairwise_reverse.mpr (globalBackupRetentionList_desc distinct))
    (fun label => ?_) (fun label b hb => ?_)
  · exact List.Nodup.sublist (List.filter_sublist.map _) distinct
  · obtain ⟨data, hd, rfl⟩ := List.mem_map.mp hb
    have both := (List.mem_filter.mp hd).2
    simp only [Bool.and_eq_true, decide_eq_true_eq] at both
    exact both.1

theorem head_le_of_asc {l : List Str} (asc : l.Pairwise (fun a b => a < b)) {a b : Str}
    (head : l.head? = some a) (hb : b ∈ l) : a ≤ b := by
  cases l with
  | nil => cases hb
  | cons x rest =>
    cases head
    rcases List.mem_cons.mp hb with rfl | hb
    · exact le_rfl
    · exact ((List.pairwise_cons.mp asc).1 b hb).le

theorem le_last_of_asc {l : List Str} (asc : l.Pairwise (fun a b => a < b)) {a b : Str}
    (last : l.getLast? = some a) (hb : b ∈ l) : b ≤ a := by
  have desc : l.reverse.Pairwise (fun a b => b < a) := List.pairwise_reverse.mpr asc
  rw [← List.head?_reverse] at last
  cases hr : l.reverse with
  | nil => simp [hr] at last
  | cons x rest =>
    rw [hr] at last desc
    cases last
    have mem : b ∈ a :: rest := hr ▸ List.mem_reverse.mpr hb
    rcases List.mem_cons.mp mem with rfl | mem
    · exact le_rfl
    · exact ((List.pairwise_cons.mp desc).1 b mem).le

section Distinct
variable (distinct : (info.backup.map (·.backupLabel)).Nodup)
include distinct

/-- The newest `n` labels of the type are those in retention. -/
theorem mem_globalArchive {data : InfoBackupData} (counts : Counts info type pgId data) :
    data.backupLabel ∈ (globalBackupRetentionList info type).take n ↔
      InRetention info type n data := by
  rw [mem_take_iff (globalBackupRetentionList_desc distinct), InRetention,
    newer_perm (strLstSort_perm (infoBackupDataLabelList info (archiveRetentionFilter type)) .desc).symm]
  constructor
  · exact And.right
  · intro few
    exact ⟨mem_global.mpr ⟨data, counts.listed, rfl, counts.type⟩, few⟩

theorem selected_spec {selected : Str}
    (head : (localBackupArchiveRetentionList ((globalBackupRetentionList info type).take n)
      (localBackupRetentionList info (globalBackupRetentionList info type) pgId)).head? =
        some selected) :
    ∃ data, RetentionBackup info type n pgId data ∧ data.backupLabel = selected := by
  have asc : (localBackupRetentionList info (globalBackupRetentionList info type)
      pgId).Pairwise (fun a b => a < b) := local_asc distinct
  have inFound (label : Str) : label ∈ ((globalBackupRetentionList info type).take n).reverse.flatMap
        (fun l => (localBackupRetentionList info (globalBackupRetentionList info type) pgId).filter
          (· = l)) ↔
      ∃ data, Counts info type pgId data ∧ InRetention info type n data ∧
        data.backupLabel = label := by
    rw [List.mem_flatMap]
    constructor
    · rintro ⟨l, newest, mem⟩
      obtain ⟨isLocal, same⟩ := List.mem_filter.mp mem
      rw [decide_eq_true_eq] at same
      subst same
      obtain ⟨data, counts, rfl⟩ := mem_local.mp isLocal
      exact ⟨data, counts, (mem_globalArchive distinct counts).mp (List.mem_reverse.mp newest), rfl⟩
    · rintro ⟨data, counts, newest, rfl⟩
      refine ⟨data.backupLabel,
        List.mem_reverse.mpr ((mem_globalArchive distinct counts).mpr newest), ?_⟩
      exact List.mem_filter.mpr ⟨mem_local.mpr ⟨data, counts, rfl⟩, by simp⟩
  rw [localBackupArchiveRetentionList] at head
  split at head
  · rename_i empty
    have last : (localBackupRetentionList info (globalBackupRetentionList info type)
        pgId).getLast? = some selected := by
      cases hl : (localBackupRetentionList info (globalBackupRetentionList info type)
          pgId).getLast? with
      | none => simp [hl] at head
      | some s => simpa [hl] using head
    obtain ⟨data, counts, rfl⟩ := mem_local.mp (List.mem_of_getLast? last)
    have outside : ¬ InRetention info type n data := by
      intro newest
      have mem := (inFound data.backupLabel).mpr ⟨data, counts, newest, rfl⟩
      rw [List.isEmpty_iff.mp empty] at mem
      cases mem
    refine ⟨data, ⟨counts, fun newest => absurd newest outside, fun _ d hd => ?_⟩, rfl⟩
    exact le_last_of_asc asc last (mem_local.mpr ⟨d, hd, rfl⟩)
  · obtain ⟨data, counts, newest, rfl⟩ := (inFound selected).mp (List.mem_of_head? head)
    refine ⟨data, ⟨counts, fun _ d hd newest' => ?_, fun outside => absurd newest outside⟩, rfl⟩
    have newestAsc : ((globalBackupRetentionList info type).take n).reverse.Pairwise
        (fun a b => a < b) :=
      List.pairwise_reverse.mpr ((globalBackupRetentionList_desc distinct).sublist
        (List.take_sublist n _))
    have foundAsc := pairwise_flatMap_lt newestAsc
      (f := fun l => (localBackupRetentionList info (globalBackupRetentionList info type)
        pgId).filter (· = l))
      (fun l => (asc.imp (fun h => h.ne)).filter _)
      (fun l b hb => by simpa using (List.mem_filter.mp hb).2)
    exact head_le_of_asc foundAsc head ((inFound d.backupLabel).mpr ⟨d, hd, newest', rfl⟩)

theorem archiveRetentionSelect_iff {data : InfoBackupData} :
    archiveRetentionSelect info (globalBackupRetentionList info type) n pgId = some data ↔
      RetentionBackup info type n pgId data := by
  have sound : ∀ d, archiveRetentionSelect info (globalBackupRetentionList info type) n pgId =
      some d → RetentionBackup info type n pgId d := by
    intro d select
    obtain ⟨listed, -⟩ := archiveRetentionSelect_spec distinct select
    rw [archiveRetentionSelect, Option.bind_eq_some_iff] at select
    obtain ⟨selected, head, last⟩ := select
    obtain ⟨found, spec, same⟩ := selected_spec distinct head
    have label := (List.mem_filter.mp (List.mem_of_getLast? last)).2
    rw [decide_eq_true_eq] at label
    rw [eq_of_label distinct listed spec.counts.listed (label.trans same.symm)]
    exact spec
  constructor
  · exact sound data
  · intro spec
    have mem := mem_local.mpr ⟨data, spec.counts, rfl⟩
    cases hs : archiveRetentionSelect info (globalBackupRetentionList info type) n pgId with
    | some d => rw [(sound d hs).unique distinct spec]
    | none =>
      rw [archiveRetentionSelect, Option.bind_eq_none_iff] at hs
      cases head : (localBackupArchiveRetentionList ((globalBackupRetentionList info type).take n)
          (localBackupRetentionList info (globalBackupRetentionList info type) pgId)).head? with
      | none =>
        rw [List.head?_eq_none_iff, localBackupArchiveRetentionList] at head
        split at head
        · rename_i empty
          cases last : (localBackupRetentionList info (globalBackupRetentionList info type)
              pgId).getLast? with
          | none => simp [List.getLast?_eq_none_iff.mp last] at mem
          | some s => simp [last] at head
        · rename_i nonempty
          simp [head] at nonempty
      | some selected =>
        obtain ⟨found, foundSpec, same⟩ := selected_spec distinct head
        have none := hs selected head
        rw [archiveRetentionBackup, List.getLast?_eq_none_iff, List.filter_eq_nil_iff] at none
        exact absurd (decide_eq_true same) (none found foundSpec.counts.listed)

end Distinct

end Selection

section Settles
variable {α β : Type} {repoIdx : Nat} {p : List Str}

/-- The computation ends with a result, keeps the options, and in a real run removes the path or
leaves it alone. -/
def Settles (repoIdx : Nat) (p : List Str) (gone : Bool) (m : Command α) : Prop :=
  ∀ v, ∃ a v', exec m v = (.ok a, v') ∧ v'.config = v.config ∧
    (v'.storage repoIdx).node p =
      if v.config.real && gone then none else (v.storage repoIdx).node p

theorem settles_pure (a : α) : Settles repoIdx p false (pure a : Command α) := by
  intro v
  exact ⟨a, v, rfl, rfl, by simp⟩

theorem Settles.of_removes {gone : Bool} {m : Command α} {f : World → List Str → Bool}
    (run : ∀ v, RunRemoves repoIdx (fun q => v.config.real && f v q) v m)
    (here : ∀ v, f v p = gone) : Settles repoIdx p gone m := by
  intro v
  obtain ⟨a, v', ends, removes⟩ := run v
  exact ⟨a, v', ends, removes.only.config, by rw [removes.node, here]⟩

theorem Settles.bind {gone gone' : Bool} {m : Command α} {f : α → Command β}
    (first : Settles repoIdx p gone m) (rest : ∀ a, Settles repoIdx p gone' (f a)) :
    Settles repoIdx p (gone || gone') (m >>= f) := by
  intro v
  obtain ⟨a, v', run, config, node⟩ := first v
  obtain ⟨b, v'', run', config', node'⟩ := rest a v'
  refine ⟨b, v'', by rw [exec_bind_of_ok run, run'], config'.trans config, ?_⟩
  rw [node', node, config]
  cases v.config.real <;> cases gone <;> cases gone' <;> rfl

theorem settles_foldlM {items : List α} {gone : α → Bool} {step : β → α → Command β}
    (one : ∀ b, ∀ a ∈ items, Settles repoIdx p (gone a) (step b a)) (b : β) :
    Settles repoIdx p (items.any gone) (items.foldlM step b) := by
  induction items generalizing b with
  | nil => exact settles_pure b
  | cons a rest ih =>
    rw [List.foldlM_cons, List.any_cons]
    exact (one b a List.mem_cons_self).bind
      (fun b' => ih (fun b a ha => one b a (List.mem_cons_of_mem _ ha)) b')

end Settles

section Files
variable {repoIdx : Nat} {archiveId id h : Str}

/-- Where a history file is stored. -/
def historyPath (archiveId historyFile : Str) : List Str := archivePath archiveId ++ [historyFile]

/-- No WAL directory has the name of a history file. -/
theorem removeWal_settles (history : walTimelineHistory h = true) (backups : List InfoBackupData)
    (retention : InfoBackupData) (start : Str) :
    Settles repoIdx (historyPath archiveId h)
      (decide (id = archiveId) && decide (strSubN h 0 8 < strSubN start 0 8))
      (removeWal repoIdx id backups retention start) := by
  refine .of_removes (fun v => removeWal_removes backups retention start) (fun v => ?_)
  have wal : (walPathList (v.storage repoIdx) id).any (fun dir => expiredPath id
      (archiveRangeList backups retention) (archiveExpireMax backups retention) dir
        (historyPath archiveId h)) = false := by
    rw [List.any_eq_false]
    intro dir listed expired
    obtain ⟨rest, same, -⟩ := expiredPath_iff.mp expired
    simp only [historyPath, archivePath, List.cons_append, List.nil_append, List.cons.injEq,
      true_and] at same
    obtain ⟨-, rfl, -⟩ := same
    rw [not_history_of_walSegmentDir (mem_walPathList.mp listed).2] at history
    cases history
  rw [wal, Bool.false_or]
  by_cases same : id = archiveId
  · simp [olderHistory, historyPath, archivePath, history, same]
  · simp [olderHistory, historyPath, archivePath, same, Ne.symm same]

end Files

section Run
variable {info : InfoBackup} {repoIdx : Nat} {archiveId h : Str}

/-- The history file is older than the timeline of the retention backup, or the whole archive path
is removed because no backup counts for an archive id that is not current. -/
def Expires (info : InfoBackup) (option : RepoOption) (infoArchivePg : InfoPg)
    (archiveId h : Str) : Prop :=
  (∃ retention start, RetentionBackup info option.retentionArchiveType
      (option.retentionArchive.getD 0) (archivePgId archiveId) retention ∧
    retention.backupArchiveStart = some start ∧ strSubN h 0 8 < strSubN start 0 8) ∨
  ((∀ data, ¬ Counts info option.retentionArchiveType (archivePgId archiveId) data) ∧
    ∃ currentPg, infoPgDataCurrent infoArchivePg = .ok currentPg ∧
      currentPg.id ≠ archivePgId archiveId)

def historyGone (info : InfoBackup) (global : List Str) (archiveRetention : Nat)
    (infoArchivePg : InfoPg) (archiveId h : Str) : Bool :=
  if (localBackupRetentionList info global (archivePgId archiveId)).isEmpty then
    match infoPgDataCurrent infoArchivePg with
    | .ok currentPg => decide (currentPg.id ≠ archivePgId archiveId)
    | .error _ => false
  else
    match archiveRetentionSelect info global archiveRetention (archivePgId archiveId) with
    | none => false
    | some retention =>
      match retention.backupArchiveStart with
      | none => false
      | some start => decide (strSubN h 0 8 < strSubN start 0 8)

theorem historyGone_iff (distinct : (info.backup.map (·.backupLabel)).Nodup) {option : RepoOption}
    {infoArchivePg : InfoPg} :
    historyGone info (globalBackupRetentionList info option.retentionArchiveType)
        (option.retentionArchive.getD 0) infoArchivePg archiveId h = true ↔
      Expires info option infoArchivePg archiveId h := by
  rw [historyGone, Expires]
  simp only [← archiveRetentionSelect_iff distinct]
  split
  · rename_i empty
    have nothing : ∀ data, ¬ Counts info option.retentionArchiveType (archivePgId archiveId) data := by
      intro data counts
      have mem := mem_local.mpr ⟨data, counts, rfl⟩
      rw [List.isEmpty_iff.mp empty] at mem
      cases mem
    rw [archiveRetentionSelect_of_nil (List.isEmpty_iff.mp empty)]
    cases infoPgDataCurrent infoArchivePg with
    | error e => simp
    | ok currentPg => simp [nothing]
  · rename_i some
    have counted : ¬ ∀ data, ¬ Counts info option.retentionArchiveType (archivePgId archiveId) data := by
      intro nothing
      apply some
      rw [List.isEmpty_iff, List.eq_nil_iff_forall_not_mem]
      intro label mem
      obtain ⟨data, counts, -⟩ := mem_local.mp mem
      exact nothing data counts
    cases archiveRetentionSelect info
        (globalBackupRetentionList info option.retentionArchiveType)
        (option.retentionArchive.getD 0) (archivePgId archiveId) with
    | none => simp [counted]
    | some retention =>
      cases hs : retention.backupArchiveStart with
      | none => simp [counted, hs]
      | some start => simp [counted, hs]

theorem removeArchivePath_settles (id : Str) :
    Settles repoIdx (historyPath archiveId h) (decide (id = archiveId)) (do
      logEvent (.removeArchivePath repoIdx id)
      storageWrite repoIdx (fun storage => storage.removeTree (archivePath id))) := by
  refine .of_removes (f := fun _ q => decide (archivePath id <+: q)) (fun v => ?_) (fun v => ?_)
  · refine (runRemoves_logEvent _).after (fun _ v' quiet => ?_)
    rw [← quiet.only.config]
    exact runRemoves_storageWrite (fun t q => by simp [node_removeTree])
  · simp [historyPath, archivePath, List.cons_prefix_cons]

theorem removeExpiredArchiveId_settles (history : walTimelineHistory h = true) {global : List Str}
    {archiveRetention : Nat} {infoArchivePg : InfoPg} {currentPg : InfoPgData}
    (current : infoPgDataCurrent infoArchivePg = .ok currentPg) (disk : List Str) (id : Str) :
    Settles repoIdx (historyPath archiveId h)
      (decide (id = archiveId) && (decide (id ∈ disk) &&
        historyGone info global archiveRetention infoArchivePg id h))
      (removeExpiredArchiveId info global archiveRetention infoArchivePg disk repoIdx id) := by
  rw [removeExpiredArchiveId]
  by_cases onDisk : id ∈ disk
  · rw [if_pos onDisk, decide_eq_true onDisk, Bool.true_and, historyGone]
    by_cases empty : (localBackupRetentionList info global (archivePgId id)).isEmpty = true
    · rw [if_pos empty, if_pos empty, current]
      change Settles _ _ _ (pure currentPg >>= _)
      rw [pure_bind]
      by_cases other : currentPg.id ≠ archivePgId id
      · rw [if_pos other]
        simp only [decide_eq_true other, Bool.and_true]
        exact removeArchivePath_settles id
      · rw [if_neg other]
        simp only [decide_eq_false other, Bool.and_false]
        exact settles_pure _
    · rw [if_neg empty, if_neg empty]
      cases archiveRetentionSelect info global archiveRetention (archivePgId id) with
      | none =>
        rw [Bool.and_false]
        exact settles_pure _
      | some retention =>
        cases hs : retention.backupArchiveStart with
        | none =>
          simp only [hs, Bool.and_false]
          exact settles_pure _
        | some start =>
          simp only [hs]
          exact removeWal_settles history _ retention start
  · rw [if_neg onDisk, decide_eq_false onDisk, Bool.false_and, Bool.and_false]
    exact settles_pure _

structure Reached (w : World) (info : InfoBackup) (repoIdx : Nat) (archiveId : Str)
    (infoArchive : InfoArchive) : Prop where
  set : (w.config.repo repoIdx).retentionArchive.getD 0 ≠ 0
  enough : (w.config.repo repoIdx).retentionArchive.getD 0 ≤
    (infoBackupDataLabelList info
      (archiveRetentionFilter (w.config.repo repoIdx).retentionArchiveType)).length
  loaded : infoArchiveLoadFile (w.storage repoIdx) = .ok infoArchive
  agree : historyMatch infoArchive.infoPg info.infoPg = .ok ⟨⟩
  known : archiveId ∈ infoArchive.infoPg.history.map infoPgArchiveId
  disk : archiveId ∈ storageList (w.storage repoIdx) [storageRepoArchive] archiveDirDbVersion

theorem removeExpiredArchive_node {w : World} (timeBasedFullRetention : Bool)
    (distinct : (info.backup.map (·.backupLabel)).Nodup)
    (current : ∀ infoArchive, infoArchiveLoadFile (w.storage repoIdx) = .ok infoArchive →
      ∃ currentPg, infoPgDataCurrent infoArchive.infoPg = .ok currentPg)
    (history : walTimelineHistory h = true)
    (stored : ((w.storage repoIdx).node (historyPath archiveId h)).isSome) :
    ((exec (removeExpiredArchive info timeBasedFullRetention repoIdx) w).2.storage repoIdx).node
        (historyPath archiveId h) = none ↔
      w.config.real = true ∧ ∃ infoArchive, Reached w info repoIdx archiveId infoArchive ∧
        Expires info (w.config.repo repoIdx) infoArchive.infoPg archiveId h := by
  have kept : (w.storage repoIdx).node (historyPath archiveId h) ≠ none :=
    Option.isSome_iff_ne_none.mp stored
  have length : (globalBackupRetentionList info
      (w.config.repo repoIdx).retentionArchiveType).length = (infoBackupDataLabelList info
        (archiveRetentionFilter (w.config.repo repoIdx).retentionArchiveType)).length :=
    (strLstSort_perm _ _).length_eq
  rw [removeExpiredArchive, exec_bind_of_ok (exec_repoOptionIdx repoIdx w)]
  dsimp only
  by_cases set : (w.config.repo repoIdx).retentionArchive.getD 0 = 0
  · have never : ∀ infoArchive, ¬ Reached w info repoIdx archiveId infoArchive :=
      fun _ reached => reached.set set
    rw [if_pos set]
    split <;> simp [never, kept]
  rw [if_neg set]
  by_cases enough : (w.config.repo repoIdx).retentionArchive.getD 0 ≤
      (infoBackupDataLabelList info
        (archiveRetentionFilter (w.config.repo repoIdx).retentionArchiveType)).length
  swap
  · have never : ∀ infoArchive, ¬ Reached w info repoIdx archiveId infoArchive :=
      fun _ reached => enough reached.enough
    simp [length, enough, never, kept]
  have some : (!(globalBackupRetentionList info
      (w.config.repo repoIdx).retentionArchiveType).isEmpty) = true := by
    rw [Bool.not_eq_true', List.isEmpty_eq_false_iff, ← List.length_pos_iff]
    omega
  rw [some, length, decide_eq_true enough, Bool.true_and, if_pos rfl, removeArchives,
    exec_bind_of_ok (exec_storageRepoIdx repoIdx w)]
  cases loaded : infoArchiveLoadFile (w.storage repoIdx) with
  | error e =>
    have never : ∀ infoArchive, ¬ Reached w info repoIdx archiveId infoArchive := by
      intro infoArchive reached
      have ok := reached.loaded
      rw [loaded] at ok
      cases ok
    rw [exec_bind_of_error (show exec (orThrow (.error e)) w = (.error e, w) from rfl)]
    simp [never, kept]
  | ok infoArchive =>
    obtain ⟨currentPg, hcurrent⟩ := current infoArchive loaded
    rw [exec_bind_of_ok (show exec (orThrow (.ok infoArchive)) w = (.ok infoArchive, w) from rfl)]
    dsimp only
    cases agree : historyMatch infoArchive.infoPg info.infoPg with
    | error e =>
      have never : ∀ infoArchive, ¬ Reached w info repoIdx archiveId infoArchive := by
        intro other reached
        have same := reached.loaded
        rw [loaded] at same
        cases same
        have ok := reached.agree
        rw [agree] at ok
        cases ok
      rw [exec_bind_of_error (show exec (orThrow (.error e)) w = (.error e, w) from rfl)]
      simp [never, kept]
    | ok u =>
      rw [exec_bind_of_ok (show exec (orThrow (.ok u)) w = (.ok u, w) from rfl)]
      have loop : Settles repoIdx (historyPath archiveId h)
          ((infoArchive.infoPg.history.reverse.map infoPgArchiveId).any (fun id =>
            decide (id = archiveId) && (decide (id ∈ storageList (w.storage repoIdx)
                [storageRepoArchive] archiveDirDbVersion) &&
              historyGone info (globalBackupRetentionList info
                (w.config.repo repoIdx).retentionArchiveType)
                ((w.config.repo repoIdx).retentionArchive.getD 0) infoArchive.infoPg id h)))
          ((infoArchive.infoPg.history.reverse.map infoPgArchiveId).foldlM (fun _ archiveId =>
            removeExpiredArchiveId info (globalBackupRetentionList info
              (w.config.repo repoIdx).retentionArchiveType)
              ((w.config.repo repoIdx).retentionArchive.getD 0) infoArchive.infoPg
              (storageList (w.storage repoIdx) [storageRepoArchive] archiveDirDbVersion) repoIdx
              archiveId) ⟨⟩) :=
        settles_foldlM (fun _ id _ => removeExpiredArchiveId_settles history hcurrent _ id) ⟨⟩
      obtain ⟨_, v, run, -, node⟩ := loop w
      rw [run, node]
      have gone : (infoArchive.infoPg.history.reverse.map infoPgArchiveId).any (fun id =>
            decide (id = archiveId) && (decide (id ∈ storageList (w.storage repoIdx)
                [storageRepoArchive] archiveDirDbVersion) &&
              historyGone info (globalBackupRetentionList info
                (w.config.repo repoIdx).retentionArchiveType)
                ((w.config.repo repoIdx).retentionArchive.getD 0) infoArchive.infoPg id h)) = true ↔
          ∃ other, Reached w info repoIdx archiveId other ∧
            Expires info (w.config.repo repoIdx) other.infoPg archiveId h := by
        rw [List.any_eq_true, List.map_reverse]
        simp only [List.mem_reverse, Bool.and_eq_true, decide_eq_true_eq]
        constructor
        · rintro ⟨id, known, rfl, disk, expires⟩
          exact ⟨infoArchive, ⟨set, enough, loaded, agree, known, disk⟩,
            (historyGone_iff distinct).mp expires⟩
        · rintro ⟨other, reached, expires⟩
          have same := reached.loaded
          rw [loaded] at same
          cases same
          exact ⟨archiveId, reached.known, rfl, reached.disk, (historyGone_iff distinct).mpr expires⟩
      rw [← gone]
      simp [kept]

def OlderThanListed (info : InfoBackup) (pgId : Nat) (h : Str) : Prop :=
  ∀ data ∈ info.backup, data.backupPgId = pgId → ∀ start ∈ data.backupArchiveStart,
    strSubN h 0 8 < strSubN start 0 8

/-- Only history files older than every listed backup are removed, exactly when none is stored
that a real run expires although a backup started on its timeline or on an earlier one. -/
theorem history_older_iff {w : World} (timeBasedFullRetention : Bool)
    (distinct : (info.backup.map (·.backupLabel)).Nodup)
    (current : ∀ infoArchive, infoArchiveLoadFile (w.storage repoIdx) = .ok infoArchive →
      ∃ currentPg, infoPgDataCurrent infoArchive.infoPg = .ok currentPg) :
    (∀ h, walTimelineHistory h = true → ((w.storage repoIdx).node (historyPath archiveId h)).isSome →
      ((exec (removeExpiredArchive info timeBasedFullRetention repoIdx) w).2.storage repoIdx).node
        (historyPath archiveId h) = none →
      OlderThanListed info (archivePgId archiveId) h) ↔
    (w.config.real = true → ∀ infoArchive, Reached w info repoIdx archiveId infoArchive →
      ∀ data ∈ info.backup, data.backupPgId = archivePgId archiveId →
        ∀ start ∈ data.backupArchiveStart, ∀ h, walTimelineHistory h = true →
          ((w.storage repoIdx).node (historyPath archiveId h)).isSome →
          strSubN start 0 8 ≤ strSubN h 0 8 →
          ¬ Expires info (w.config.repo repoIdx) infoArchive.infoPg archiveId h) := by
  constructor
  · intro safe real infoArchive reached data listed pg start hstart h history stored later expires
    have gone := (removeExpiredArchive_node timeBasedFullRetention distinct current history
      stored).mpr ⟨real, infoArchive, reached, expires⟩
    exact absurd (safe h history stored gone data listed pg start hstart) (not_lt_of_ge later)
  · intro gap h history stored gone data listed pg start hstart
    obtain ⟨real, infoArchive, reached, expires⟩ :=
      (removeExpiredArchive_node timeBasedFullRetention distinct current history stored).mp gone
    by_contra later
    exact gap real infoArchive reached data listed pg start hstart h history stored
      (not_lt.mp later) expires

def timelineStorage : Storage :=
  ⟨[(infoArchiveFile, .file (.infoArchive ⟨⟨[⟨1, 1, 1, 90600⟩], 0⟩⟩)),
    (archivePath "9.6-1".toList, .dir),
    (historyPath "9.6-1".toList "00000002.history".toList, .file .other)]⟩

def timelineWorld : World where
  now := 0
  timeText := fun _ => []
  config := { repo := fun _ => { retentionFull := some 2, retentionArchive := some 1 } }
  storage := fun _ => timelineStorage

/-- Two full backups of one cluster, the older one on a timeline of its own. -/
def timelineInfo (older : String) : InfoBackup :=
  ⟨⟨[⟨1, 1, 1, 90600⟩], 0⟩, [clusterBackup "20200101-000000F" 1 older,
    clusterBackup "20200102-000000F" 1 "000000030000000000000009"]⟩

/-- The backup on timeline 2 is listed, and its history file is removed. -/
theorem history_not_older :
    ((timelineInfo "000000020000000000000002").backup.map (·.backupLabel)).Nodup ∧
    walTimelineHistory "00000002.history".toList = true ∧
    (timelineStorage.node (historyPath "9.6-1".toList "00000002.history".toList)).isSome = true ∧
    (((exec (removeExpiredArchive (timelineInfo "000000020000000000000002") false 0)
      timelineWorld).2.storage 0).node
        (historyPath "9.6-1".toList "00000002.history".toList)).isNone = true ∧
    ¬ OlderThanListed (timelineInfo "000000020000000000000002") (archivePgId "9.6-1".toList)
      "00000002.history".toList := by
  refine ⟨by decide, by decide, by decide, by decide, ?_⟩
  unfold OlderThanListed
  decide

/-- With both backups on timeline 3, what is removed is older than both. -/
theorem history_older_iff_same :
    ((timelineInfo "000000030000000000000002").backup.map (·.backupLabel)).Nodup ∧
    ∀ h, walTimelineHistory h = true →
      ((timelineStorage.node (historyPath "9.6-1".toList h)).isSome) →
      ((exec (removeExpiredArchive (timelineInfo "000000030000000000000002") false 0)
        timelineWorld).2.storage 0).node (historyPath "9.6-1".toList h) = none →
      OlderThanListed (timelineInfo "000000030000000000000002") (archivePgId "9.6-1".toList) h := by
  refine ⟨by decide, (history_older_iff (w := timelineWorld) false (by decide) ?_).mpr ?_⟩
  · intro infoArchive loaded
    have only : infoArchiveLoadFile (timelineWorld.storage 0) =
        .ok ⟨⟨[⟨1, 1, 1, 90600⟩], 0⟩⟩ := rfl
    rw [only] at loaded
    cases loaded
    exact ⟨_, rfl⟩
  · intro _ infoArchive _ data listed _ start hstart h _ _ later expires
    have timeline : ∀ data ∈ (timelineInfo "000000030000000000000002").backup,
        ∀ start ∈ data.backupArchiveStart, strSubN start 0 8 = "00000003".toList := by
      decide
    rw [timeline data listed start hstart] at later
    rcases expires with ⟨retention, first, spec, hfirst, older⟩ | ⟨none, -⟩
    · rw [timeline retention spec.counts.listed first hfirst] at older
      exact absurd older (not_lt_of_ge later)
    · exact none (clusterBackup "20200101-000000F" 1 "000000030000000000000002")
        ⟨by decide, by decide, by decide⟩

end Run

end ArchiveHistory
