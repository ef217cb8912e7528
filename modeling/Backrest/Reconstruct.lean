import Backrest.DryRunExpire
import Backrest.ExpireRetention

/-!
# Reconstructing the list of backups

The list of backup.info is brought in line with the repository: backups without a manifest
are removed with their dependents, and complete backups that are not listed are added. Both
rely on a prior that sorts before its dependents.
-/

namespace Reconstruct

open Text LexOrder BackupCommon BackupManifest BackupInfo ForwardClosure FileTree Effects
open Repository ExpireCommand DryRunExpire ExpireRetention

def IsListed (info : InfoBackup) (label : Str) : Prop :=
  ∃ data ∈ info.backup, data.backupLabel = label

def hasPrior (info : InfoBackup) (manData : ManifestData) : Prop :=
  ∀ prior, manData.backupLabelPrior = some prior → IsListed info prior

def InHistory (infoPg : InfoPg) (manData : ManifestData) : Prop :=
  ∃ pgHistory ∈ infoPg.history, manData.pgId = pgHistory.id ∧
    manData.pgSystemId = pgHistory.systemId ∧ manData.pgVersion = pgHistory.version

/-- The directories of the repository that are named as backups. -/
def backupDirs (storage : Storage) : List Str := storageList storage [storageRepoBackup] labelAny

section Lookup

variable {info : InfoBackup}

theorem infoBackupDataByLabel_isSome {label : Str} :
    (infoBackupDataByLabel info label).isSome = true ↔ IsListed info label := by
  rw [infoBackupDataByLabel, List.find?_isSome]
  simp only [decide_eq_true_eq]
  rfl

theorem reconstructValid_iff {manData : ManifestData} : reconstructValid info manData = true ↔
    InHistory info.infoPg manData ∧ hasPrior info manData := by
  rw [reconstructValid, hasPrior, InHistory]
  cases manData.backupLabelPrior with
  | none => simp [and_assoc]
  | some prior =>
    simp only [List.any_eq_true, Bool.and_eq_true, decide_eq_true_eq, infoBackupDataByLabel_isSome,
      Option.some.injEq, forall_eq']
    constructor
    · rintro ⟨pgHistory, mem, ⟨⟨id, systemId⟩, version⟩, listed⟩
      exact ⟨⟨pgHistory, mem, id, systemId, version⟩, listed⟩
    · rintro ⟨⟨pgHistory, mem, id, systemId, version⟩, listed⟩
      exact ⟨pgHistory, mem, ⟨⟨id, systemId⟩, version⟩, listed⟩

theorem mem_currentList {label : Str} :
    label ∈ strLstSort (infoBackupDataLabelList info (fun _ => true)) .asc ↔ IsListed info label := by
  rw [mem_strLstSort, infoBackupDataLabelList, List.filter_true, List.mem_map]
  rfl

end Lookup

/-! ## Removal -/

section Remove

variable {storage : Storage} {info info' : InfoBackup} {w w' : World}

theorem reconstructRemove_chained {label : Str} (chained : Chained info)
    (run : exec (reconstructRemove storage info label) w = (.ok info', w')) :
    Chained info' ∧ info'.backup.Sublist info.backup ∧ info'.infoPg = info.infoPg := by
  rw [reconstructRemove] at run
  split at run
  · obtain ⟨v, loop⟩ := exec_missingManifest_foldlM
      (strLstSort (infoBackupDataDependentList info label) .desc) info w
    rw [loop] at run
    cases run
    have left := (Expired.none info).step chained label
    exact ⟨left.chained chained, left.sublist, left.infoPg⟩
  · cases run
    exact ⟨chained, List.Sublist.refl _, rfl⟩

/-- A backup goes with all that depend on it, so priors stay listed. -/
theorem removed_spec {stored : InfoBackup} (chained : Chained stored)
    (run : exec ((strLstSort (infoBackupDataLabelList stored (fun _ => true)) .asc).foldlM
      (reconstructRemove storage) stored) w = (.ok info', w')) :
    Chained info' ∧ info'.backup.Sublist stored.backup ∧ info'.infoPg = stored.infoPg :=
  foldlM_ok (P := fun info _ => Chained info ∧ info.backup.Sublist stored.backup ∧
      info.infoPg = stored.infoPg)
    (fun _ _ _ _ _ _ before step => by
      obtain ⟨chained, sublist, pg⟩ := reconstructRemove_chained before.1 step
      exact ⟨chained, sublist.trans before.2.1, pg.trans before.2.2⟩)
    ⟨chained, List.Sublist.refl _, rfl⟩ run

end Remove

/-! ## Additions -/

section Add

variable {storage : Storage} {current : List Str} {info info' : InfoBackup} {label : Str}
  {w w' : World}

/-- What is added for a backup is decided by what is listed when its turn comes. -/
theorem reconstructAdd_spec (run : exec (reconstructAdd storage current info label) w = (.ok info', w')) :
    (∃ manifest data, label ∉ current ∧ storageExists storage (manifestFileName label) = true ∧
      manifestLoadFile storage label = .ok manifest ∧
      (InHistory info.infoPg manifest.data ∧ hasPrior info manifest.data) ∧
      infoBackupDataNew manifest = .ok data ∧
      info' = { info with backup := sortBy (·.backupLabel) (info.backup ++ [data]) }) ∨
    info' = info ∧ (label ∉ current → ∀ manifest,
      storageExists storage (manifestFileName label) = true →
      manifestLoadFile storage label = .ok manifest →
      ¬(InHistory info.infoPg manifest.data ∧ hasPrior info manifest.data)) := by
  rw [reconstructAdd] at run
  split at run
  next present =>
    rw [Bool.and_eq_true, decide_eq_true_eq] at present
    obtain ⟨manifest, v, load, rest⟩ := exec_bind_ok run
    obtain ⟨loaded, rfl⟩ := exec_orThrow_ok load
    split at rest
    next valid =>
      obtain ⟨_, v', logged, add⟩ := exec_bind_ok rest
      obtain ⟨added, -⟩ := exec_orThrow_ok add
      obtain ⟨data, new, last⟩ := except_bind_ok added
      cases last
      exact .inl ⟨manifest, data, present.1, present.2, loaded, reconstructValid_iff.mp valid, new, rfl⟩
    next invalid =>
      obtain ⟨_, v', logged, last⟩ := exec_bind_ok rest
      cases last
      refine .inr ⟨rfl, fun _ manifest' _ loaded' => ?_⟩
      rw [loaded, Except.ok.injEq] at loaded'
      rwa [← loaded', ← reconstructValid_iff]
  next absent =>
    cases run
    refine .inr ⟨rfl, fun unlisted manifest present => ?_⟩
    rw [Bool.and_eq_true, decide_eq_true_eq] at absent
    exact absurd ⟨unlisted, present⟩ absent

def ManifestsOrdered (storage : Storage) : Prop :=
  ∀ label manifest prior, manifestLoadFile storage label = .ok manifest →
    manifest.data.backupLabelPrior = some prior → prior < label

theorem sortBy_ordered {backup : List InfoBackupData} {data : InfoBackupData}
    (nodup : (backup.map (·.backupLabel) ++ [data.backupLabel]).Nodup) :
    Ordered (sortBy (·.backupLabel) (backup ++ [data])) := by
  have perm := (sortBy_perm (·.backupLabel) (backup ++ [data])).map (·.backupLabel)
  rw [List.map_append] at perm
  have apart := perm.nodup_iff.mpr nodup
  rw [List.Nodup, List.pairwise_map] at apart
  exact (sortBy_pairwise _ _).imp₂ (fun _ _ le ne => lt_of_le_of_ne le ne) apart

theorem reconstructAdd_step (named : ManifestsNamed storage) (priors : ManifestsOrdered storage)
    (chained : Chained info) (fresh : label ∉ current → ¬IsListed info label)
    (run : exec (reconstructAdd storage current info label) w = (.ok info', w')) :
    Chained info' ∧ info'.infoPg = info.infoPg ∧
      (∀ l, l ≠ label → (IsListed info' l ↔ IsListed info l)) ∧
      (IsListed info label → IsListed info' label) ∧
      (label ∉ current → ∀ manifest, storageExists storage (manifestFileName label) = true →
        manifestLoadFile storage label = .ok manifest → InHistory info.infoPg manifest.data →
        (IsListed info' label ↔ hasPrior info manifest.data)) := by
  rcases reconstructAdd_spec run with
    ⟨manifest, data, unlisted, present, loaded, ⟨history, prior⟩, new, rfl⟩ | ⟨rfl, invalid⟩
  · obtain ⟨same, isPrior, -⟩ := BackupRun.infoBackupDataNew_spec new
    rw [named label manifest loaded] at same
    have mem : ∀ d, d ∈ sortBy (·.backupLabel) (info.backup ++ [data]) ↔ d ∈ info.backup ∨ d = data := by
      intro d
      rw [mem_sortBy, List.mem_append, List.mem_singleton]
    refine ⟨⟨?_, ?_⟩, rfl, ?_, ?_, ?_⟩
    · refine sortBy_ordered (List.nodup_append.mpr ⟨chained.nodup, List.nodup_singleton _, ?_⟩)
      rintro l isOld l' isNew rfl
      obtain ⟨d, old, rfl⟩ := List.mem_map.mp isOld
      rw [List.mem_singleton, same] at isNew
      exact fresh unlisted ⟨d, old, isNew⟩
    · intro d isMem p hasP
      rcases (mem d).mp isMem with old | rfl
      · obtain ⟨⟨e, listed, own⟩, less⟩ := chained.prior d old p hasP
        exact ⟨⟨e, (mem e).mpr (.inl listed), own⟩, less⟩
      · rw [isPrior] at hasP
        split at hasP
        · cases hasP
        · obtain ⟨e, listed, own⟩ := prior p hasP
          rw [same]
          exact ⟨⟨e, (mem e).mpr (.inl listed), own⟩, priors label manifest p loaded hasP⟩
    · intro l other
      constructor
      · rintro ⟨d, isMem, rfl⟩
        rcases (mem d).mp isMem with old | rfl
        · exact ⟨d, old, rfl⟩
        · exact absurd same other
      · rintro ⟨d, old, rfl⟩
        exact ⟨d, (mem d).mpr (.inl old), rfl⟩
    · exact fun _ => ⟨data, (mem data).mpr (.inr rfl), same⟩
    · intro _ manifest' _ loaded' _
      rw [loaded, Except.ok.injEq] at loaded'
      subst loaded'
      exact iff_of_true ⟨data, (mem data).mpr (.inr rfl), same⟩ prior
  · refine ⟨chained, rfl, fun _ _ => Iff.rfl, id, fun unlisted manifest present loaded history => ?_⟩
    refine iff_of_false (fresh unlisted) fun prior => ?_
    exact invalid unlisted manifest present loaded ⟨history, prior⟩

/-- A backup is added when its prior is, since its prior had its turn before. -/
theorem added_spec (named : ManifestsNamed storage) (priors : ManifestsOrdered storage)
    {labels : List Str} (sorted : labels.Pairwise (· < ·)) (chained : Chained info)
    (fresh : ∀ l ∈ labels, l ∉ current → ¬IsListed info l)
    (run : exec (labels.foldlM (reconstructAdd storage current) info) w = (.ok info', w')) :
    Chained info' ∧ info'.infoPg = info.infoPg ∧
      (∀ l, IsListed info l → IsListed info' l) ∧
      (∀ l, l ∉ labels → (IsListed info' l ↔ IsListed info l)) ∧
      ∀ l ∈ labels, l ∉ current → ∀ manifest, storageExists storage (manifestFileName l) = true →
        manifestLoadFile storage l = .ok manifest → InHistory info.infoPg manifest.data →
        (IsListed info' l ↔ hasPrior info' manifest.data) := by
  induction labels generalizing info w with
  | nil =>
    cases run
    exact ⟨chained, rfl, fun _ => id, fun _ _ => Iff.rfl, fun l mem => by cases mem⟩
  | cons label labels ih =>
    rw [List.foldlM_cons] at run
    obtain ⟨mid, v, first, rest⟩ := exec_bind_ok run
    rw [List.pairwise_cons] at sorted
    obtain ⟨chained₁, pg₁, others₁, grows₁, own₁⟩ :=
      reconstructAdd_step named priors chained (fresh label List.mem_cons_self) first
    have notLater : label ∉ labels := fun mem => lt_irrefl _ (sorted.1 label mem)
    have fresh₁ : ∀ l ∈ labels, l ∉ current → ¬IsListed mid l := by
      intro l mem unlisted
      rw [others₁ l (sorted.1 l mem).ne']
      exact fresh l (List.mem_cons_of_mem _ mem) unlisted
    obtain ⟨chained₂, pg₂, grows₂, others₂, own₂⟩ := ih sorted.2 chained₁ fresh₁ rest
    refine ⟨chained₂, pg₂.trans pg₁, ?_, ?_, ?_⟩
    · intro l listed
      refine grows₂ l ?_
      by_cases same : l = label
      · subst same
        exact grows₁ listed
      · exact (others₁ l same).mpr listed
    · intro l outside
      rw [List.mem_cons, not_or] at outside
      rw [others₂ l outside.2, others₁ l outside.1]
    · intro l mem unlisted manifest present loaded history
      rcases List.mem_cons.mp mem with rfl | mem
      · rw [others₂ l notLater, own₁ unlisted manifest present loaded history]
        -- the prior had its turn before, and no later turn adds it
        refine forall₂_congr fun prior isPrior => ?_
        have less := priors l manifest prior loaded isPrior
        have before : prior ∉ labels := fun later => (sorted.1 prior later).asymm less
        rw [others₂ prior before, others₁ prior less.ne]
      · rw [← pg₁] at history
        exact own₂ l mem unlisted manifest present loaded history

end Add

/-! ## The reconstructed list -/

/-- What the list of backups should be for a repository. -/
structure Reconstructed (storage : Storage) (info : InfoBackup) : Prop where
  backed : Backed storage info
  ordered : Ordered info.backup
  closed : ∀ data ∈ info.backup, ∀ prior, data.backupPrior = some prior → IsListed info prior
  complete : ∀ label ∈ backupDirs storage, ∀ manifest,
    storageExists storage (manifestFileName label) = true →
    manifestLoadFile storage label = .ok manifest → InHistory info.infoPg manifest.data →
    (IsListed info label ↔ hasPrior info manifest.data)

def PriorsAgree (storage : Storage) (info : InfoBackup) : Prop :=
  ∀ data ∈ info.backup, ∀ manifest, manifestLoadFile storage data.backupLabel = .ok manifest →
    data.backupPrior = manifest.data.backupLabelPrior

/-- The list is as it should be when manifests are in the directory of their label, priors sort
before their dependents and both files name the same prior. -/
theorem infoBackupLoadFileReconstruct_reconstructed {storage : Storage} {stored info : InfoBackup}
    {w : World} (load : infoBackupLoadFile storage = .ok stored) (chained : Chained stored)
    (named : ManifestsNamed storage) (priors : ManifestsOrdered storage)
    (agree : PriorsAgree storage stored)
    (done : (exec (infoBackupLoadFileReconstruct storage) w).1 = .ok info) :
    Reconstructed storage info := by
  have run : exec (infoBackupLoadFileReconstruct storage) w =
      (.ok info, (exec (infoBackupLoadFileReconstruct storage) w).2) := Prod.ext done rfl
  obtain ⟨loaded, v₁, first, afterLoad⟩ := exec_bind_ok run
  obtain ⟨same, -⟩ := exec_orThrow_ok first
  rw [load, Except.ok.injEq] at same
  subst same
  obtain ⟨kept, v₂, removed, add⟩ := exec_bind_ok afterLoad
  obtain ⟨chainedKept, sublist, pgKept⟩ := removed_spec chained removed
  have sorted : (strLstSort (backupDirs storage) .asc).Pairwise (· < ·) :=
    (strLstSort_asc_sorted _).imp₂ (fun _ _ le ne => lt_of_le_of_ne le ne)
      (strLstSort_storageList_nodup storage [storageRepoBackup] labelAny .asc)
  obtain ⟨chainedInfo, pg, grows, others, own⟩ := added_spec named priors sorted chainedKept
    (fun l _ unlisted listed => unlisted (mem_currentList.mpr listed)) add
  refine ⟨load_backed named done, chainedInfo.ordered,
    fun data mem prior isPrior => (chainedInfo.prior data mem prior isPrior).1, ?_⟩
  intro label isDir manifest present loaded history
  by_cases listed : IsListed kept label
  · obtain ⟨data, mem, rfl⟩ := listed
    refine iff_of_true (grows _ ⟨data, mem, rfl⟩) fun prior isPrior => grows prior ?_
    rw [← agree data (sublist.subset mem) manifest loaded] at isPrior
    exact (chainedKept.prior data mem prior isPrior).1
  · rw [pg] at history
    exact own label (mem_strLstSort.mpr isDir) (fun mem => listed (mem_currentList.mp mem)) manifest
      present loaded history

section Misled

def exampleLabel (day : Char) : Str := "2020010".toList ++ day :: "-000000F".toList

def exampleManifest (backupLabel : Str) (backupLabelPrior : Option Str) : Manifest where
  data := {
    backupLabel := backupLabel
    backupLabelPrior := backupLabelPrior
    backupType := if backupLabelPrior.isSome then .incr else .full
    pgId := 1
    pgSystemId := 1
    pgVersion := 100000 }

def exampleInfo (backup : List (Str × Option Str)) : InfoBackup where
  infoPg := { history := [⟨1, 1, 1, 100000⟩] }
  backup := backup.map fun (label, prior) => { backupLabel := label, backupPrior := prior }

def exampleStorage (info : InfoBackup) (manifests : List (Str × Manifest)) : Storage :=
  ⟨(infoBackupFile, .file (.infoBackup info)) :: manifests.flatMap fun (label, manifest) =>
    [(backupPath label, .dir), (manifestFileName label, .file (.manifest manifest))]⟩

def exampleWorld : World where
  now := 0
  timeText := fun _ => []
  config := { repo := fun _ => {} }
  storage := fun _ => ⟨[]⟩

def manifestCheck (info : InfoBackup) (e : List Str × Node RepoFile) : Bool :=
  match e with
  | ([_, label, _], .file (.manifest manifest)) =>
    decide (manifest.data.backupLabel = label) &&
      manifest.data.backupLabelPrior.all (fun prior => decide (prior < label)) &&
      info.backup.all fun data => decide (data.backupLabel ≠ label) ||
        decide (data.backupPrior = manifest.data.backupLabelPrior)
  | _ => true

theorem orderly_of_entries {storage : Storage} {info : InfoBackup}
    (h : ∀ e ∈ storage.entries, manifestCheck info e = true) :
    ManifestsNamed storage ∧ ManifestsOrdered storage ∧ PriorsAgree storage info := by
  have checked : ∀ label manifest, manifestLoadFile storage label = .ok manifest →
      (manifest.data.backupLabel = label ∧
        ∀ prior ∈ manifest.data.backupLabelPrior, prior < label) ∧
      ∀ data ∈ info.backup, data.backupLabel = label →
        data.backupPrior = manifest.data.backupLabelPrior := by
    intro label manifest load
    obtain ⟨file, entry⟩ := manifestLoadFile_entry load
    have check := h _ entry
    simp only [manifestCheck, Bool.and_eq_true, decide_eq_true_eq, Option.all_eq_true,
      List.all_eq_true, Bool.or_eq_true] at check
    exact ⟨check.1, fun data mem same => (check.2 data mem).resolve_left (not_not.mpr same)⟩
  exact ⟨fun label manifest load => (checked label manifest load).1.1,
    fun label manifest prior load isPrior => (checked label manifest load).1.2 prior isPrior,
    fun data mem manifest load => (checked _ manifest load).2 data mem rfl⟩

/-- The second backup is listed without a manifest, and the third is not listed. -/
def orderlyInfo : InfoBackup :=
  exampleInfo [(exampleLabel '1', none), (exampleLabel '2', some (exampleLabel '1'))]

def orderlyStorage : Storage :=
  exampleStorage orderlyInfo [(exampleLabel '1', exampleManifest (exampleLabel '1') none),
    (exampleLabel '3', exampleManifest (exampleLabel '3') (some (exampleLabel '1')))]

theorem infoBackupLoadFileReconstruct_orderly :
    ∃ info, (exec (infoBackupLoadFileReconstruct orderlyStorage) exampleWorld).1 = .ok info ∧
      info.backup.map (·.backupLabel) = [exampleLabel '1', exampleLabel '3'] ∧
      Reconstructed orderlyStorage info := by
  have done : ((exec (infoBackupLoadFileReconstruct orderlyStorage) exampleWorld).1.map
      fun info => info.backup.map (·.backupLabel)).toOption =
        some [exampleLabel '1', exampleLabel '3'] := by decide +kernel
  rcases run : (exec (infoBackupLoadFileReconstruct orderlyStorage) exampleWorld).1 with e | info
  · rw [run] at done
    cases done
  · rw [run] at done
    obtain ⟨named, priors, agree⟩ : ManifestsNamed orderlyStorage ∧ ManifestsOrdered orderlyStorage ∧
        PriorsAgree orderlyStorage orderlyInfo := orderly_of_entries (by decide +kernel)
    have chained : Chained orderlyInfo := by
      refine ⟨List.pairwise_map.mp (by decide +kernel :
        (orderlyInfo.backup.map (·.backupLabel)).Pairwise (· < ·)), ?_⟩
      decide +kernel
    exact ⟨info, rfl, Option.some.inj done,
      infoBackupLoadFileReconstruct_reconstructed rfl chained named priors agree run⟩

/-- The load of a sorted and closed list is done, and the result is not as it should be. -/
def Misled (storage : Storage) : Prop :=
  ∃ stored info w, infoBackupLoadFile storage = .ok stored ∧ Ordered stored.backup ∧
    (∀ data ∈ stored.backup, ∀ prior, data.backupPrior = some prior → IsListed stored prior) ∧
    (exec (infoBackupLoadFileReconstruct storage) w).1 = .ok info ∧ ¬Reconstructed storage info

def summary (info : InfoBackup) : InfoPg × List (Str × Option Str) :=
  (info.infoPg, info.backup.map fun data => (data.backupLabel, data.backupPrior))

theorem isListed_summary {info : InfoBackup} {label : Str} :
    IsListed info label ↔ label ∈ (summary info).2.map Prod.fst := by
  rw [summary, List.map_map, List.mem_map]
  rfl

theorem closed_summary {info : InfoBackup}
    (closed : ∀ item ∈ (summary info).2, ∀ prior ∈ item.2, prior ∈ (summary info).2.map Prod.fst) :
    ∀ data ∈ info.backup, ∀ prior, data.backupPrior = some prior → IsListed info prior := by
  intro data mem prior isPrior
  rw [isListed_summary]
  exact closed _ (List.mem_map_of_mem mem) prior isPrior

theorem misled_of_summary {info : InfoBackup} {manifests : List (Str × Manifest)}
    (left : InfoPg × List (Str × Option Str))
    (ordered : ((summary info).2.map Prod.fst).Pairwise (· < ·))
    (closed : ∀ item ∈ (summary info).2, ∀ prior ∈ item.2, prior ∈ (summary info).2.map Prod.fst)
    (done : ((exec (infoBackupLoadFileReconstruct (exampleStorage info manifests))
      exampleWorld).1.map summary).toOption = some left)
    (wrong : ∀ info', summary info' = left → ¬Reconstructed (exampleStorage info manifests) info') :
    Misled (exampleStorage info manifests) := by
  rcases run : (exec (infoBackupLoadFileReconstruct (exampleStorage info manifests))
      exampleWorld).1 with e | info'
  · rw [run] at done
    cases done
  · rw [run] at done
    rw [summary, List.map_map, List.pairwise_map] at ordered
    exact ⟨info, info', exampleWorld, rfl, ordered, closed_summary closed, run,
      wrong info' (Option.some.inj done)⟩

/-- A manifest that carries the label of another directory. -/
def otherLabelStorage : Storage :=
  exampleStorage (exampleInfo []) [(exampleLabel '1', exampleManifest (exampleLabel '2') none)]

/-- The first backup depends on the second through the third, and the second has no manifest. -/
def laterPriorStorage : Storage :=
  exampleStorage
    (exampleInfo [(exampleLabel '1', some (exampleLabel '3')), (exampleLabel '2', none),
      (exampleLabel '3', some (exampleLabel '2'))])
    [(exampleLabel '1', exampleManifest (exampleLabel '1') (some (exampleLabel '3'))),
      (exampleLabel '3', exampleManifest (exampleLabel '3') (some (exampleLabel '2')))]

/-- Two backups that are not listed, the first of which depends on the second. -/
def laterManifestStorage : Storage :=
  exampleStorage (exampleInfo [])
    [(exampleLabel '1', exampleManifest (exampleLabel '1') (some (exampleLabel '2'))),
      (exampleLabel '2', exampleManifest (exampleLabel '2') none)]

/-- A backup that is listed without the prior of its manifest. -/
def otherPriorStorage : Storage :=
  exampleStorage (exampleInfo [(exampleLabel '1', none)])
    [(exampleLabel '1', exampleManifest (exampleLabel '1') (some (exampleLabel '2')))]

theorem exampleManifest_inHistory {info : InfoBackup} {label : Str} {prior : Option Str}
    (same : info.infoPg = ⟨[⟨1, 1, 1, 100000⟩], 0⟩) :
    InHistory info.infoPg (exampleManifest label prior).data := by
  rw [same]
  exact ⟨_, List.mem_singleton_self _, rfl, rfl, rfl⟩

theorem infoBackupLoadFileReconstruct_misled :
    Misled otherLabelStorage ∧ Misled laterPriorStorage ∧ Misled laterManifestStorage ∧
      Misled otherPriorStorage := by
  refine ⟨?_, ?_, ?_, ?_⟩
  · refine misled_of_summary (⟨[⟨1, 1, 1, 100000⟩], 0⟩, [(exampleLabel '2', none)])
      (by decide +kernel) (by decide +kernel) (by decide +kernel) fun info same right => ?_
    have listed : IsListed info (exampleLabel '2') := by
      rw [isListed_summary, same]
      exact List.mem_singleton_self _
    obtain ⟨data, mem, own⟩ := listed
    have backed := right.backed data mem
    rw [own] at backed
    revert backed
    decide +kernel
  · refine misled_of_summary
      (⟨[⟨1, 1, 1, 100000⟩], 0⟩, [(exampleLabel '1', some (exampleLabel '3'))])
      (by decide +kernel) (by decide +kernel) (by decide +kernel) fun info same right => ?_
    have entry : (exampleLabel '1', some (exampleLabel '3')) ∈ (summary info).2 := by
      rw [same]
      exact List.mem_singleton_self _
    obtain ⟨data, mem, own⟩ := List.mem_map.mp entry
    have listed := right.closed data mem _ (congrArg Prod.snd own)
    rw [isListed_summary, same] at listed
    revert listed
    decide +kernel
  · refine misled_of_summary (⟨[⟨1, 1, 1, 100000⟩], 0⟩, [(exampleLabel '2', none)])
      (by decide +kernel) (by decide +kernel) (by decide +kernel) fun info same right => ?_
    have complete := right.complete (exampleLabel '1') (by decide +kernel) _ (by decide +kernel) rfl
      (exampleManifest_inHistory (congrArg Prod.fst same))
    have listed := complete.mpr fun prior isPrior => by
      rw [isListed_summary, same, ← Option.some.inj isPrior]
      exact List.mem_singleton_self _
    rw [isListed_summary, same] at listed
    revert listed
    decide +kernel
  · refine misled_of_summary (⟨[⟨1, 1, 1, 100000⟩], 0⟩, [(exampleLabel '1', none)])
      (by decide +kernel) (by decide +kernel) (by decide +kernel) fun info same right => ?_
    have complete := right.complete (exampleLabel '1') (by decide +kernel) _ (by decide +kernel) rfl
      (exampleManifest_inHistory (congrArg Prod.fst same))
    have listed : IsListed info (exampleLabel '1') := by
      rw [isListed_summary, same]
      exact List.mem_singleton_self _
    have prior := complete.mp listed (exampleLabel '2') rfl
    rw [isListed_summary, same] at prior
    revert prior
    decide +kernel

end Misled

end Reconstruct
