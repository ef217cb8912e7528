import Mathlib.Logic.Relation
import Backrest.Expire

/-!
# Backups and expirations on one repository

A run takes completed backups and expirations in any order, from a `backup.info`
without backups. A backup refers only to files of its prior backup and of the
backups its prior refers to, so its references stay within the chain of priors.
Expire removes a backup with everything that depends on it. Together no listed
backup is left with a prior or a reference that is not listed.
-/

namespace BackupRun

open Text LexOrder BackupCommon Variants BackupManifest BackupInfo ForwardClosure FileTree Effects
open Repository Expire

section Backup

def backupLabelPrior (info : InfoBackup) (type : BackupType) : Except Error (Option Str) := do
  let infoPg ← infoPgDataCurrent info.infoPg
  let prior := info.backup.reverse.find? (fun prior =>
    !(decide (type = .diff) && decide (prior.backupType ≠ .full)) &&
      decide (infoPg.id = prior.backupPgId))
  return prior.map (·.backupLabel)

/-- `backupBuildIncrPrior`: the prior manifest, and the type the backup is made with. -/
def backupBuildIncrPrior (info : InfoBackup) (storage : Storage) (type : BackupType) :
    Except Error (Option Manifest × BackupType) := do
  if type = .full then
    return (none, type)
  match ← backupLabelPrior info type with
  | none => return (none, .full)
  | some label => return (some (← manifestLoadFile storage label), type)

/-- A manifest as `manifestNewBuild` returns it: a full backup that refers to nothing. -/
structure NewManifest where
  manifest : Manifest
  typeFull : manifest.data.backupType = .full
  noPrior : manifest.data.backupLabelPrior = none
  noReference : ∀ file ∈ manifest.fileList, file.reference = none

/-- What happens to the file list while the backup is processed. -/
inductive FileEvent where
  /-- A file found in a resumed backup: `manifestFileUpdate` with the reference left alone. -/
  | resumed (name : Str) (update : FileUpdate)
  /-- A file that was copied: the reference is cleared. -/
  | copied (name : Str) (update : FileUpdate)
  /-- A file that the database removed before it was copied. -/
  | skipped (name : Str)
  /-- A backup label file or a WAL segment written into the backup. -/
  | added (file : ManifestFile)

def fileEvent (manifest : Manifest) : FileEvent → Except Error Manifest
  | .resumed name update => manifestFileUpdate manifest name { update with reference := .keep }
  | .copied name update => manifestFileUpdate manifest name { update with reference := .set none }
  | .skipped name => manifestFileRemove manifest name
  | .added file => return manifestFileAdd manifest { file with reference := none }

/-- The parameters of `manifestBuildComplete` that are known when the backup stops. -/
structure CompleteParam where
  timestampStart : Int
  lsnStart : Option Str
  timestampStop : Int
  lsnStop : Option Str
  archiveStop : Option Str
  dbList : List ManifestDb
  optionArchiveCheck : Bool
  optionArchiveCopy : Bool
  optionBufferSize : Nat
  optionCompressLevel : Nat
  optionCompressLevelNetwork : Nat
  optionHardLink : Bool
  optionProcessMax : Nat
  optionStandby : Bool

/-- What a backup brings in from outside: the request, the files found and what happened to
them, and the data that is known when the backup stops. -/
structure BackupRequest where
  type : BackupType
  built : NewManifest
  archiveStart : Option Str
  label : Str
  event : List FileEvent
  complete : CompleteParam

def manifestBuildComplete (this : Manifest) (archiveStart : Option Str) (pg : InfoPgData)
    (param : CompleteParam) : Manifest :=
  { this with
    dbList := sortBy (·.name) (this.dbList ++ param.dbList)
    data := { this.data with
      backupTimestampStart := param.timestampStart
      lsnStart := param.lsnStart
      archiveStart := archiveStart
      backupTimestampStop := param.timestampStop
      lsnStop := param.lsnStop
      archiveStop := param.archiveStop
      pgId := pg.id
      pgSystemId := pg.systemId
      backupOptionArchiveCheck := param.optionArchiveCheck
      backupOptionArchiveCopy := param.optionArchiveCopy
      backupOptionStandby := .bool param.optionStandby
      backupOptionBufferSize := .uint64 param.optionBufferSize
      backupOptionCompressLevel := .uint param.optionCompressLevel
      backupOptionCompressLevelNetwork := .uint param.optionCompressLevelNetwork
      backupOptionHardLink := param.optionHardLink
      backupOptionProcessMax := .uint param.optionProcessMax } }

def manifestBackupLabelSet (this : Manifest) (backupLabel : Str) : Manifest :=
  { this with data := { this.data with backupLabel := backupLabel } }

structure State where
  info : InfoBackup
  storage : Storage

/-- `backupBuildIncr`: without a prior manifest the backup stays as it was built. -/
def backupBuildIncr (request : BackupRequest) (manifestPrior : Option Manifest)
    (type : BackupType) : Except Error Manifest :=
  match manifestPrior with
  | none => .ok request.built.manifest
  | some prior => manifestBuildIncr request.built.manifest prior type request.archiveStart

def backupManifest (request : BackupRequest) (s : State) : Except Error Manifest := do
  let (prior, type) ← backupBuildIncrPrior s.info s.storage request.type
  let manifest ← backupBuildIncr request prior type
  let manifest := manifestBackupLabelSet manifest request.label
  let manifest ← request.event.foldlM fileEvent manifest
  let pg ← infoPgDataCurrent s.info.infoPg
  return manifestBuildComplete manifest request.archiveStart pg request.complete

/-- `backupComplete`: store the manifest and its copies, and add the backup. -/
def backupComplete (s : State) (manifest : Manifest) : Except Error State := do
  let label := manifest.data.backupLabel
  let storage := s.storage.put (manifestCopyFileName label) (.manifest manifest)
  let storage := storage.put (manifestFileName label) (.manifest manifest)
  let storage := storage.put [storageRepoBackup, backupPathHistory, strSubN label 0 4,
    label ++ ".manifest.gz".toList] (.manifest manifest)
  let storage := storage.put [storageRepoBackup, backupLinkName] .other
  let info ← infoBackupDataAdd s.info manifest
  let storage := storage.put infoBackupFile (.infoBackup info)
  return ⟨info, storage.put infoBackupFileCopy (.infoBackup info)⟩

def backup (request : BackupRequest) (s : State) : Except Error State := do
  backupComplete s (← backupManifest request s)

end Backup

section Run

/-- The four ways a backup is expired. -/
inductive Expiration where
  | adhoc (label : Str)
  | full
  | diff
  | timeBased (minTimestamp : Int)

def Expiration.run (info : InfoBackup) (repoIdx : Nat) :
    Expiration → Command (InfoBackup × Nat)
  | .adhoc label => expireAdhocBackup info label repoIdx
  | .full => expireFullBackup info repoIdx
  | .diff => expireDiffBackup info repoIdx
  | .timeBased minTimestamp => expireTimeBasedBackup info minTimestamp repoIdx

/-- One completed backup, one completed expiration, or a new PostgreSQL version. An expiration
runs with any options, at any time and beside any other repositories. -/
inductive Step : State → State → Prop where
  | backup {s s' : State} (request : BackupRequest)
      (later : ∀ data ∈ s.info.backup, data.backupLabel < request.label)
      (done : backup request s = .ok s') : Step s s'
  | expire {s : State} {info : InfoBackup} {total repoIdx : Nat} {w w' : World}
      (expiration : Expiration) (here : w.storage repoIdx = s.storage)
      (done : exec (expiration.run s.info repoIdx) w = (.ok (info, total), w')) :
      Step s ⟨info, w'.storage repoIdx⟩
  | upgrade {s : State} (infoPg : InfoPg) : Step s { s with info := { s.info with infoPg := infoPg } }

/-- Is a label listed in `backup.info`? -/
def Listed (s : State) (label : Str) : Prop :=
  ∃ data ∈ s.info.backup, data.backupLabel = label

end Run

section Invariant

def manifestReferences (storage : Storage) (label : Str) : List Str :=
  match storage.read (manifestFileName label) with
  | some (.manifest manifest) => fileReferences manifest
  | _ => []

structure Inv (s : State) : Prop where
  ordered : Ordered s.info.backup
  stored : ∀ data ∈ s.info.backup, ∃ manifest,
    s.storage.read (manifestFileName data.backupLabel) = some (.manifest manifest) ∧
      manifest.data.backupLabel = data.backupLabel
  prior : ∀ data ∈ s.info.backup, ∀ p, data.backupPrior = some p →
    Listed s p ∧ p < data.backupLabel
  reference : ∀ data ∈ s.info.backup, ∀ r ∈ data.backupReference.getD [],
    r ∈ manifestReferences s.storage data.backupLabel
  chain : ∀ data ∈ s.info.backup, ∀ r ∈ manifestReferences s.storage data.backupLabel,
    ∃ p, data.backupPrior = some p ∧ (r = p ∨ r ∈ manifestReferences s.storage p)

theorem manifestReferences_congr {t t' : Storage} {label : Str}
    (h : t'.read (manifestFileName label) = t.read (manifestFileName label)) :
    manifestReferences t' label = manifestReferences t label := by
  rw [manifestReferences, manifestReferences, h]

theorem manifestReferences_of_read {t : Storage} {label : Str} {manifest : Manifest}
    (h : t.read (manifestFileName label) = some (.manifest manifest)) :
    manifestReferences t label = fileReferences manifest := by
  rw [manifestReferences, h]

theorem inv_empty {s : State} (empty : s.info.backup = []) : Inv s := by
  constructor
  · rw [Ordered, empty]
    exact List.Pairwise.nil
  all_goals
    intro data hd
    rw [empty] at hd
    cases hd

theorem Inv.reference_listed {s : State} (inv : Inv s) {data : InfoBackupData}
    (hd : data ∈ s.info.backup) {r : Str}
    (hr : r ∈ manifestReferences s.storage data.backupLabel) : Listed s r := by
  have below : ∀ n, ∀ data ∈ s.info.backup,
      (s.info.backup.filter (fun d => d.backupLabel < data.backupLabel)).length = n →
      r ∈ manifestReferences s.storage data.backupLabel → Listed s r := by
    intro n
    induction n using Nat.strong_induction_on with
    | _ n ih =>
      intro data hd hn hr
      obtain ⟨p, hp, hchain⟩ := inv.chain data hd r hr
      obtain ⟨listed, older⟩ := inv.prior data hd p hp
      rcases hchain with rfl | hr
      · exact listed
      · obtain ⟨prior, hprior, rfl⟩ := listed
        refine ih _ ?_ prior hprior rfl hr
        rw [← hn]
        -- The prior itself is counted for the backup but not for the prior.
        have sub : (s.info.backup.filter (fun d => d.backupLabel < prior.backupLabel)).Sublist
            (s.info.backup.filter (fun d => d.backupLabel < data.backupLabel)) := by
          refine List.monotone_filter_right _ (fun d hlt => ?_)
          have hlt : d.backupLabel < prior.backupLabel := by simpa using hlt
          simpa using hlt.trans older
        refine lt_of_le_of_ne sub.length_le (fun same => ?_)
        have equal := sub.eq_of_length same
        have mem : prior ∈ s.info.backup.filter (fun d => d.backupLabel < data.backupLabel) :=
          List.mem_filter.mpr ⟨hprior, by simpa using older⟩
        rw [← equal] at mem
        have self : prior.backupLabel < prior.backupLabel := by
          simpa using (List.mem_filter.mp mem).2
        exact lt_irrefl _ self
  exact below _ data hd rfl hr

/-- What a removal may do: it keeps an order preserving part of the list, every prior of what it
keeps, and the manifests of what it keeps. -/
structure Shrinks (s s' : State) : Prop where
  sub : s'.info.backup.Sublist s.info.backup
  closed : ∀ data ∈ s'.info.backup, ∀ p, data.backupPrior = some p → Listed s p → Listed s' p
  kept : ∀ data ∈ s'.info.backup, s'.storage.read (manifestFileName data.backupLabel) =
    s.storage.read (manifestFileName data.backupLabel)

theorem Inv.shrinks {s s' : State} (inv : Inv s) (shrinks : Shrinks s s') : Inv s' := by
  have old : ∀ data ∈ s'.info.backup, data ∈ s.info.backup := fun data hd => shrinks.sub.subset hd
  have same : ∀ data ∈ s'.info.backup, manifestReferences s'.storage data.backupLabel =
      manifestReferences s.storage data.backupLabel :=
    fun data hd => manifestReferences_congr (shrinks.kept data hd)
  have prior : ∀ data ∈ s'.info.backup, ∀ p, data.backupPrior = some p →
      Listed s' p ∧ p < data.backupLabel := by
    intro data hd p hp
    obtain ⟨listed, older⟩ := inv.prior data (old data hd) p hp
    exact ⟨shrinks.closed data hd p hp listed, older⟩
  refine ⟨inv.ordered.sublist shrinks.sub, ?_, prior, ?_, ?_⟩
  · intro data hd
    rw [shrinks.kept data hd]
    exact inv.stored data (old data hd)
  · intro data hd r hr
    rw [same data hd]
    exact inv.reference data (old data hd) r hr
  · intro data hd r hr
    rw [same data hd] at hr
    obtain ⟨p, hp, hchain⟩ := inv.chain data (old data hd) r hr
    obtain ⟨listed, -⟩ := prior data hd p hp
    obtain ⟨priorData, hprior, rfl⟩ := listed
    rw [← same priorData hprior] at hchain
    exact ⟨priorData.backupLabel, hp, hchain⟩

end Invariant

section Expiration

theorem parentsFirst_of_ordered {backup : List InfoBackupData} (order : Ordered backup)
    (older : ∀ data ∈ backup, ∀ p, data.backupPrior = some p → p < data.backupLabel) :
    ParentsFirst (·.backupLabel) (·.backupPrior) backup := by
  induction backup with
  | nil => exact trivial
  | cons data rest ih =>
    obtain ⟨above, tail⟩ := List.pairwise_cons.mp order
    refine ⟨?_, ih tail (fun d hd => older d (List.mem_cons_of_mem data hd))⟩
    intro later hlater hp
    have hlt := older data List.mem_cons_self later.backupLabel hp
    rcases List.mem_cons.mp hlater with rfl | hlater
    · exact lt_irrefl _ hlt
    · exact lt_asymm hlt (above later hlater)

variable {repoIdx : Nat} {w w' : World} {info : InfoBackup} {state : InfoBackup × Nat} {label : Str}
  {u : PUnit}

theorem expireBackup_inv {info' : InfoBackup} {expired : List Str}
    (inv : Inv ⟨info, w.storage repoIdx⟩)
    (done : exec (expireBackup info label repoIdx) w = (.ok (info', expired), w')) :
    Inv ⟨info', w'.storage repoIdx⟩ := by
  rw [exec_expireBackup] at done
  obtain ⟨hinfo, hw⟩ := Prod.mk.inj done
  have hinfo := (Prod.mk.inj (Except.ok.inj hinfo)).1
  subst hinfo hw
  have gone : ∀ l, l ∈ strLstSort (infoBackupDataDependentList info label) .desc ↔
      l ∈ infoBackupDataDependentList info label := fun l => mem_strLstSort
  have left := foldl_delete_backup inv.ordered
    (strLstSort (infoBackupDataDependentList info label) .desc)
  have order : ParentsFirst (·.backupLabel) (·.backupPrior) info.backup :=
    parentsFirst_of_ordered inv.ordered (fun d hd p hp => (inv.prior d hd p hp).2)
  have keptLabel : ∀ data, data ∈ (List.foldl infoBackupDataDelete info
      (strLstSort (infoBackupDataDependentList info label) .desc)).backup ↔
      data ∈ info.backup ∧ data.backupLabel ∉ infoBackupDataDependentList info label := by
    intro data
    rw [left, List.mem_filter, decide_eq_true_eq, gone]
  refine inv.shrinks ⟨?_, ?_, ?_⟩
  · exact left ▸ List.filter_sublist
  · intro data hd p hp listed
    obtain ⟨old, kept⟩ := (keptLabel data).mp hd
    obtain ⟨prior, hprior, rfl⟩ := listed
    -- A prior in the dependent list would have taken this backup with it.
    have priorKept := parent_not_mem_collect order old hp kept
    exact ⟨prior, (keptLabel prior).mpr ⟨hprior, priorKept⟩, rfl⟩
  · intro data hd
    obtain ⟨-, kept⟩ := (keptLabel data).mp hd
    exact foldl_removeManifests_read (fun mem => kept ((gone _).mp mem)) repoIdx w

theorem expireLogged_inv {kind : ExpireKind} {state' : InfoBackup × Nat}
    (inv : Inv ⟨state.1, w.storage repoIdx⟩)
    (done : exec (expireLogged kind repoIdx state label) w = (.ok state', w')) :
    Inv ⟨state'.1, w'.storage repoIdx⟩ := by
  obtain ⟨⟨info, expired⟩, v, first, rest⟩ := exec_bind_ok done
  obtain ⟨_, v', logged, last⟩ := exec_bind_ok rest
  rw [exec_logEvent] at logged
  cases logged
  cases last
  have after : Inv ⟨info, v.storage repoIdx⟩ := expireBackup_inv inv first
  exact after

theorem expireLogged_foldlM_inv {kind : ExpireKind} {labels : List Str} (state : InfoBackup × Nat)
    {state' : InfoBackup × Nat} (inv : Inv ⟨state.1, w.storage repoIdx⟩)
    (done : exec (labels.foldlM (expireLogged kind repoIdx) state) w = (.ok state', w')) :
    Inv ⟨state'.1, w'.storage repoIdx⟩ :=
  foldlM_ok (P := fun state w => Inv ⟨state.1, w.storage repoIdx⟩)
    (fun _ _ _ _ _ _ h step => expireLogged_inv h step) inv done

theorem expireFullBackup_inv (inv : Inv ⟨info, w.storage repoIdx⟩)
    (done : exec (expireFullBackup info repoIdx) w = (.ok state, w')) :
    Inv ⟨state.1, w'.storage repoIdx⟩ := by
  obtain ⟨option, v, read, rest⟩ := exec_bind_ok done
  cases read
  dsimp only at rest
  split at rest
  · exact expireLogged_foldlM_inv (info, 0) inv rest
  · cases rest
    exact inv

theorem expireDiffBackup_inv (inv : Inv ⟨info, w.storage repoIdx⟩)
    (done : exec (expireDiffBackup info repoIdx) w = (.ok state, w')) :
    Inv ⟨state.1, w'.storage repoIdx⟩ := by
  obtain ⟨option, v, read, rest⟩ := exec_bind_ok done
  cases read
  dsimp only at rest
  split at rest
  · exact expireLogged_foldlM_inv (info, 0) inv rest
  · cases rest
    exact inv

theorem expireUntilFirst_inv {keep : Str} {fuel num : Nat} (state : InfoBackup × Nat)
    {result : (InfoBackup × Nat) × Nat} (inv : Inv ⟨state.1, w.storage repoIdx⟩)
    (done : exec (expireUntilFirst keep repoIdx fuel state num) w = (.ok result, w')) :
    Inv ⟨result.1.1, w'.storage repoIdx⟩ := by
  induction fuel generalizing state num w with
  | zero => cases done
  | succ fuel ih =>
    obtain ⟨first, v, read, rest⟩ := exec_bind_ok done
    obtain ⟨_, rfl⟩ := exec_orThrow_ok read
    split at rest
    · cases rest
      exact inv
    · obtain ⟨next, v', one, tail⟩ := exec_bind_ok rest
      exact ih next (expireLogged_inv inv one) tail

theorem retentionArchiveSet_storage {value : Nat}
    (done : exec (retentionArchiveSet repoIdx value) w = (.ok u, w')) :
    w'.storage = w.storage := by
  cases done
  rfl

section Steps
variable (inv : Inv ⟨info, w.storage repoIdx⟩)
include inv

theorem expireTimeBasedBackup_inv {minTimestamp : Int}
    (done : exec (expireTimeBasedBackup info minTimestamp repoIdx) w = (.ok state, w')) :
    Inv ⟨state.1, w'.storage repoIdx⟩ := by
  rw [expireTimeBasedBackup] at done
  dsimp only at done
  split at done
  · cases done
    exact inv
  · obtain ⟨⟨after, num⟩, v, loop, rest⟩ := exec_bind_ok done
    have invAfter : Inv ⟨after.1, v.storage repoIdx⟩ :=
      expireUntilFirst_inv (info, 0) inv loop
    obtain ⟨option, v', read, rest⟩ := exec_bind_ok rest
    cases read
    split at rest
    · obtain ⟨_, v'', set, last⟩ := exec_bind_ok rest
      have same := retentionArchiveSet_storage set
      cases last
      rw [same]
      exact invAfter
    · cases rest
      exact invAfter

theorem backupLinkLatest_inv (done : exec (backupLinkLatest repoIdx label) w = (.ok u, w')) :
    Inv ⟨info, w'.storage repoIdx⟩ := by
  rw [backupLinkLatest, exec_storageWrite] at done
  cases done
  refine inv.shrinks ⟨List.Sublist.refl _, fun _ _ _ _ listed => listed, ?_⟩
  intro data _
  refine write_read (fun t => ?_)
  have different : manifestFileName data.backupLabel ≠ [storageRepoBackup, backupLinkName] := by
    simp [manifestFileName]
  rw [read_put_of_ne different, read_remove_of_ne different]

theorem latestUpdate_inv {latest : Str}
    (done : exec (latestUpdate info latest repoIdx) w = (.ok u, w')) :
    Inv ⟨info, w'.storage repoIdx⟩ := by
  rw [latestUpdate] at done
  split at done
  · obtain ⟨_, v₁, logged, afterLog⟩ := exec_bind_ok done
    rw [exec_logEvent] at logged
    cases logged
    obtain ⟨_, v₂, world, afterGet⟩ := exec_bind_ok afterLog
    cases world
    obtain ⟨dryRun, v₃, option, afterOption⟩ := exec_bind_ok afterGet
    obtain ⟨-, rfl⟩ := exec_orThrow_ok option
    split at afterOption
    · obtain ⟨last, v₄, read, link⟩ := exec_bind_ok afterOption
      obtain ⟨-, rfl⟩ := exec_orThrow_ok read
      exact backupLinkLatest_inv
        (w := { w with log := w.log ++ [.expireLatest repoIdx latest] }) inv link
    · cases afterOption
      exact inv
  · cases done
    exact inv

theorem expireAdhocBackup_inv
    (done : exec (expireAdhocBackup info label repoIdx) w = (.ok state, w')) :
    Inv ⟨state.1, w'.storage repoIdx⟩ := by
  obtain ⟨_, v₁, check, afterCheck⟩ := exec_bind_ok done
  obtain ⟨-, rfl⟩ := exec_orThrow_ok check
  obtain ⟨latest, v₂, read, afterRead⟩ := exec_bind_ok afterCheck
  obtain ⟨-, rfl⟩ := exec_orThrow_ok read
  obtain ⟨⟨after, expired⟩, v₃, removed, afterRemove⟩ := exec_bind_ok afterRead
  obtain ⟨_, v₄, link, afterLink⟩ := exec_bind_ok afterRemove
  obtain ⟨_, v₅, logged, last⟩ := exec_bind_ok afterLink
  rw [exec_logEvent] at logged
  cases logged
  cases last
  have linked : Inv ⟨after, v₄.storage repoIdx⟩ :=
    latestUpdate_inv (expireBackup_inv inv removed) link
  exact linked

theorem expiration_inv {expiration : Expiration}
    (done : exec (expiration.run info repoIdx) w = (.ok state, w')) :
    Inv ⟨state.1, w'.storage repoIdx⟩ := by
  cases expiration with
  | adhoc label => exact expireAdhocBackup_inv inv done
  | full => exact expireFullBackup_inv inv done
  | diff => exact expireDiffBackup_inv inv done
  | timeBased minTimestamp => exact expireTimeBasedBackup_inv inv done

end Steps

end Expiration

section Completed

variable {manifest : Manifest} {s : State}

theorem fileEvent_refersWithin {P : Str → Prop} {manifest' : Manifest} {event : FileEvent}
    (within : RefersWithin P manifest) (done : fileEvent manifest event = .ok manifest') :
    RefersWithin P manifest' ∧ manifest'.data = manifest.data := by
  cases event with
  | resumed name update =>
    exact manifestFileUpdate_refersWithin within (fun r hr => by cases hr) done
  | copied name update =>
    exact manifestFileUpdate_refersWithin within (fun r hr => by cases hr) done
  | skipped name => exact manifestFileRemove_refersWithin within done
  | added file =>
    cases done
    rw [refersWithin_iff] at within
    refine ⟨refersWithin_iff.mpr ?_, rfl⟩
    intro f hf r hr
    rcases List.mem_append.mp hf with old | new
    · exact within f old r hr
    · rw [List.mem_singleton.mp new] at hr
      cases hr

theorem backupBuildIncrPrior_spec {type type' : BackupType} {prior : Manifest} (inv : Inv s)
    (done : backupBuildIncrPrior s.info s.storage type = .ok (some prior, type')) :
    ∃ data ∈ s.info.backup, s.storage.read (manifestFileName data.backupLabel) =
        some (.manifest prior) ∧ prior.data.backupLabel = data.backupLabel ∧ type' ≠ .full := by
  rw [backupBuildIncrPrior] at done
  split at done
  · cases done
  · rename_i notFull
    obtain ⟨label, found, rest⟩ := except_bind_ok done
    cases label with
    | none => cases rest
    | some label =>
      obtain ⟨manifest, load, last⟩ := except_bind_ok rest
      cases last
      obtain ⟨pg, -, found⟩ := except_bind_ok found
      have found := Except.ok.inj found
      rw [Option.map_eq_some_iff] at found
      obtain ⟨data, hdata, rfl⟩ := found
      have listed : data ∈ s.info.backup :=
        List.mem_reverse.mp (List.mem_of_find?_eq_some hdata)
      obtain ⟨stored, hstored, hlabel⟩ := inv.stored data listed
      have same : stored = prior := by
        rw [manifestLoadFile, loadFile, loadTry, hstored] at load
        exact Except.ok.inj load
      subst same
      exact ⟨data, listed, hstored, hlabel, notFull⟩

/-- What is known of the manifest of a completed backup: it carries its label, and it refers to
nothing or has a listed prior within which its references stay. -/
theorem backupManifest_spec {request : BackupRequest} (inv : Inv s)
    (done : backupManifest request s = .ok manifest) :
    manifest.data.backupLabel = request.label ∧
      ((manifest.data.backupType = .full ∧ fileReferences manifest = []) ∨
        ∃ data ∈ s.info.backup, manifest.data.backupType ≠ .full ∧
          manifest.data.backupLabelPrior = some data.backupLabel ∧
          ∀ r ∈ fileReferences manifest, r = data.backupLabel ∨
            r ∈ manifestReferences s.storage data.backupLabel) := by
  obtain ⟨⟨prior, type⟩, hprior, afterPrior⟩ := except_bind_ok done
  obtain ⟨built, hbuilt, afterBuilt⟩ := except_bind_ok afterPrior
  obtain ⟨processed, hprocess, afterProcess⟩ := except_bind_ok afterBuilt
  obtain ⟨pg, -, last⟩ := except_bind_ok afterProcess
  cases last
  -- Processing keeps the references within any bound and leaves the data alone.
  have process : ∀ P : Str → Prop, RefersWithin P built →
      RefersWithin P processed ∧ processed.data = (manifestBackupLabelSet built request.label).data := by
    intro P within
    have start : RefersWithin P (manifestBackupLabelSet built request.label) := within
    refine except_foldlM_ok (P := fun m => RefersWithin P m ∧
      m.data = (manifestBackupLabelSet built request.label).data) ?_ ⟨start, rfl⟩ hprocess
    intro m m' event _ hm step
    obtain ⟨next, same⟩ := fileEvent_refersWithin hm.1 step
    exact ⟨next, same.trans hm.2⟩
  cases prior with
  | none =>
    cases hbuilt
    have none : RefersWithin (fun _ => False) request.built.manifest := by
      refine refersWithin_iff.mpr (fun file hf r hr => ?_)
      rw [request.built.noReference file hf] at hr
      cases hr
    obtain ⟨within, same⟩ := process _ none
    have data : processed.data.backupType = .full := by
      rw [same]
      exact request.built.typeFull
    have label : processed.data.backupLabel = request.label := by rw [same]; rfl
    exact ⟨label, Or.inl ⟨data, List.eq_nil_iff_forall_not_mem.mpr within⟩⟩
  | some prior =>
    obtain ⟨data, listed, stored, hlabel, notFull⟩ := backupBuildIncrPrior_spec inv hprior
    obtain ⟨within, labelPrior, hasType⟩ := manifestBuildIncr_spec request.built.noReference hbuilt
    obtain ⟨within, same⟩ := process _ within
    have label : processed.data.backupLabel = request.label := by rw [same]; rfl
    have type' : processed.data.backupType ≠ .full := by
      rw [same]
      exact hasType ▸ notFull
    have prior' : processed.data.backupLabelPrior = some data.backupLabel := by
      rw [same, ← hlabel]
      exact labelPrior
    refine ⟨label, Or.inr ⟨data, listed, type', prior', ?_⟩⟩
    intro r hr
    rw [manifestReferences_of_read stored, ← hlabel]
    exact within r hr

/-- What `backupComplete` leaves at the manifest of each label. -/
theorem backupComplete_read {s' : State} (done : backupComplete s manifest = .ok s') (label : Str) :
    s'.storage.read (manifestFileName label) =
      if label = manifest.data.backupLabel then some (.manifest manifest)
      else s.storage.read (manifestFileName label) := by
  obtain ⟨info, -, last⟩ := except_bind_ok done
  cases last
  have h₁ : manifestFileName label ≠ infoBackupFileCopy := by
    simp [manifestFileName, infoBackupFileCopy]
  have h₂ : manifestFileName label ≠ infoBackupFile := by
    simp [manifestFileName, infoBackupFile]
  have h₃ : manifestFileName label ≠ [storageRepoBackup, backupLinkName] := by
    simp [manifestFileName]
  have h₄ : manifestFileName label ≠ [storageRepoBackup, backupPathHistory,
      strSubN manifest.data.backupLabel 0 4,
      manifest.data.backupLabel ++ ".manifest.gz".toList] := by
    simp [manifestFileName]
  have h₅ : manifestFileName label ≠ manifestCopyFileName manifest.data.backupLabel := by
    simp [manifestFileName, manifestCopyFileName]
  dsimp only
  rw [read_put_of_ne h₁, read_put_of_ne h₂, read_put_of_ne h₃, read_put_of_ne h₄]
  split
  · rename_i same
    rw [same, read_put_self]
  · rename_i different
    rw [read_put_of_ne, read_put_of_ne h₅]
    simpa [manifestFileName] using different

/-- The entry made for a manifest. -/
theorem infoBackupDataNew_spec {data : InfoBackupData}
    (done : infoBackupDataNew manifest = .ok data) :
    data.backupLabel = manifest.data.backupLabel ∧
      data.backupPrior =
        (if manifest.data.backupType = .full then none else manifest.data.backupLabelPrior) ∧
      ∀ r ∈ data.backupReference.getD [], r ∈ fileReferences manifest := by
  obtain ⟨standby, -, afterStandby⟩ := except_bind_ok done
  obtain ⟨checksumPage, -, last⟩ := except_bind_ok afterStandby
  cases last
  refine ⟨rfl, rfl, ?_⟩
  intro r hr
  dsimp only at hr
  split at hr
  · cases hr
  · rw [Option.getD_some, mem_strLstSort] at hr
    exact mem_referenceList.mp hr

theorem backup_inv {s' : State} {request : BackupRequest} (inv : Inv s)
    (later : ∀ data ∈ s.info.backup, data.backupLabel < request.label)
    (done : backup request s = .ok s') : Inv s' := by
  obtain ⟨manifest, hmanifest, complete⟩ := except_bind_ok done
  obtain ⟨hlabel, hkind⟩ := backupManifest_spec inv hmanifest
  have reads := backupComplete_read complete
  obtain ⟨info, hadd, last⟩ := except_bind_ok complete
  obtain ⟨new, hnew, sorted⟩ := except_bind_ok hadd
  obtain ⟨newLabel, newPrior, newReference⟩ := infoBackupDataNew_spec hnew
  rw [hlabel] at newLabel
  have hbackup : s'.info.backup = s.info.backup ++ [new] := by
    have hinfo : s'.info = info := by cases last; rfl
    rw [hinfo, ← Except.ok.inj sorted]
    exact sortBy_label_concat inv.ordered (fun d hd => newLabel ▸ later d hd)
  have mem : ∀ data, data ∈ s'.info.backup ↔ data ∈ s.info.backup ∨ data = new := by
    intro data
    rw [hbackup, List.mem_append, List.mem_singleton]
  have listed : ∀ label, Listed s label → Listed s' label := by
    rintro label ⟨data, hd, rfl⟩
    exact ⟨data, (mem data).mpr (Or.inl hd), rfl⟩
  have old : ∀ data ∈ s.info.backup, s'.storage.read (manifestFileName data.backupLabel) =
      s.storage.read (manifestFileName data.backupLabel) := by
    intro data hd
    rw [reads, if_neg]
    rw [hlabel]
    exact (later data hd).ne
  have oldReferences : ∀ data ∈ s.info.backup,
      manifestReferences s'.storage data.backupLabel =
        manifestReferences s.storage data.backupLabel :=
    fun data hd => manifestReferences_congr (old data hd)
  have newRead : s'.storage.read (manifestFileName new.backupLabel) = some (.manifest manifest) := by
    rw [reads, if_pos (newLabel.trans hlabel.symm)]
  have newReferences := manifestReferences_of_read newRead
  constructor
  · rw [Ordered, hbackup, List.pairwise_append]
    refine ⟨inv.ordered, List.pairwise_singleton _ _, ?_⟩
    intro a ha b hb
    rw [List.mem_singleton.mp hb, newLabel]
    exact later a ha
  · intro data hd
    rcases (mem data).mp hd with hd | rfl
    · rw [old data hd]
      exact inv.stored data hd
    · exact ⟨manifest, newRead, hlabel.trans newLabel.symm⟩
  · intro data hd p hp
    rcases (mem data).mp hd with hd | rfl
    · obtain ⟨hl, hlt⟩ := inv.prior data hd p hp
      exact ⟨listed p hl, hlt⟩
    · rcases hkind with ⟨full, -⟩ | ⟨prior, hprior, notFull, labelPrior, -⟩
      · rw [newPrior, if_pos full] at hp
        cases hp
      · rw [newPrior, if_neg notFull, labelPrior] at hp
        have hp := Option.some.inj hp
        subst hp
        rw [newLabel]
        exact ⟨listed _ ⟨prior, hprior, rfl⟩, later prior hprior⟩
  · intro data hd r hr
    rcases (mem data).mp hd with hd | rfl
    · rw [oldReferences data hd]
      exact inv.reference data hd r hr
    · rw [newReferences]
      exact newReference r hr
  · intro data hd r hr
    rcases (mem data).mp hd with hd | rfl
    · rw [oldReferences data hd] at hr
      obtain ⟨p, hp, hchain⟩ := inv.chain data hd r hr
      obtain ⟨⟨prior, hprior, rfl⟩, -⟩ := inv.prior data hd p hp
      rw [← oldReferences prior hprior] at hchain
      exact ⟨prior.backupLabel, hp, hchain⟩
    · rw [newReferences] at hr
      rcases hkind with ⟨-, none⟩ | ⟨prior, hprior, notFull, labelPrior, within⟩
      · rw [none] at hr
        cases hr
      · refine ⟨prior.backupLabel, ?_, ?_⟩
        · rw [newPrior, if_neg notFull, labelPrior]
        · rw [oldReferences prior hprior]
          exact within r hr

end Completed

section Main

theorem step_inv {s s' : State} (inv : Inv s) (step : Step s s') : Inv s' := by
  cases step with
  | backup request later done => exact backup_inv inv later done
  | @expire info total repoIdx w w' expiration here done =>
    have start : Inv ⟨s.info, w.storage repoIdx⟩ := by
      rw [here]
      exact inv
    have after : Inv ⟨(info, total).1, w'.storage repoIdx⟩ := expiration_inv start done
    exact after
  | upgrade infoPg =>
    exact ⟨inv.ordered, inv.stored, inv.prior, inv.reference, inv.chain⟩

theorem run_inv {s s' : State} (inv : Inv s) (run : Relation.ReflTransGen Step s s') : Inv s' := by
  induction run with
  | refl => exact inv
  | tail _ step ih => exact step_inv ih step

/-- After any run from an empty `backup.info`, the prior of a listed backup, every backup in its
reference list and every backup a file of its manifest refers to are listed. -/
theorem references_stay_listed {s s' : State} (empty : s.info.backup = [])
    (run : Relation.ReflTransGen Step s s') {data : InfoBackupData}
    (listed : data ∈ s'.info.backup) :
    (∀ p, data.backupPrior = some p → Listed s' p) ∧
      (∀ r ∈ data.backupReference.getD [], Listed s' r) ∧
      ∃ manifest, manifestLoadFile s'.storage data.backupLabel = .ok manifest ∧
        ∀ file ∈ manifest.fileList, ∀ r, file.reference = some r → Listed s' r := by
  have inv := run_inv (inv_empty empty) run
  obtain ⟨manifest, stored, -⟩ := inv.stored data listed
  refine ⟨fun p hp => (inv.prior data listed p hp).1, ?_, manifest, ?_, ?_⟩
  · intro r hr
    exact inv.reference_listed listed (inv.reference data listed r hr)
  · rw [manifestLoadFile, loadFile, loadTry, stored]
    rfl
  · intro file hf r hr
    refine inv.reference_listed listed ?_
    rw [manifestReferences_of_read stored]
    exact List.mem_filterMap.mpr ⟨file, hf, hr⟩

/-- A cluster with one file that never changes. -/
def unchangedCluster : NewManifest where
  manifest :=
    { data := { backupOptionDelta := .bool false }
      fileList := [{ name := "pg_data/PG_VERSION".toList, size := 3, timestamp := 1 }] }
  typeFull := rfl
  noPrior := rfl
  noReference := by simp

def unchangedRequest (type : BackupType) (label : String) : BackupRequest where
  type := type
  built := unchangedCluster
  archiveStart := none
  label := label.toList
  event := []
  complete :=
    { timestampStart := 0, lsnStart := none, timestampStop := 0, lsnStop := none
      archiveStop := none, dbList := [], optionArchiveCheck := false, optionArchiveCopy := false
      optionBufferSize := 0, optionCompressLevel := 0, optionCompressLevelNetwork := 0
      optionHardLink := false, optionProcessMax := 1, optionStandby := false }

def emptyState : State := ⟨⟨⟨[⟨1, 1, 1, 100000⟩], 0⟩, []⟩, ⟨[]⟩⟩

def afterBackup (request : BackupRequest) (s : State) : State := (backup request s).toOption.getD s

/-- A full backup and two incremental ones, and then an ad hoc expiration of the last. -/
def oneBackup : State := afterBackup (unchangedRequest .full "20200101-000000F") emptyState

def twoBackups : State :=
  afterBackup (unchangedRequest .incr "20200101-000000F_20200102-000000I") oneBackup

def threeBackups : State :=
  afterBackup (unchangedRequest .incr "20200101-000000F_20200103-000000I") twoBackups

def adhocWorld : World where
  now := 0
  timeText := fun _ => []
  config := { repo := fun _ => {}, dryRun := some false }
  storage := fun _ => threeBackups.storage

def afterAdhoc : Except Error (InfoBackup × Nat) × World :=
  exec ((Expiration.adhoc "20200101-000000F_20200103-000000I".toList).run threeBackups.info 0)
    adhocWorld

def adhocState : State :=
  ⟨(afterAdhoc.1.toOption.map (·.1)).getD threeBackups.info, afterAdhoc.2.storage 0⟩

theorem adhocState_reached : Relation.ReflTransGen Step emptyState adhocState := by
  have full : Step emptyState oneBackup :=
    .backup (unchangedRequest .full "20200101-000000F") (by decide) rfl
  have first : Step oneBackup twoBackups :=
    .backup (unchangedRequest .incr "20200101-000000F_20200102-000000I") (by decide) rfl
  have second : Step twoBackups threeBackups :=
    .backup (unchangedRequest .incr "20200101-000000F_20200103-000000I") (by decide) rfl
  have last : Step threeBackups adhocState :=
    @Step.expire threeBackups adhocState.info ((afterAdhoc.1.toOption.map (·.2)).getD 0) 0
      adhocWorld afterAdhoc.2 (.adhoc "20200101-000000F_20200103-000000I".toList) rfl rfl
  exact (((Relation.ReflTransGen.single full).tail first).tail second).tail last

/-- The incremental backup that is left still has its prior and its reference. -/
theorem references_stay_listed_after_adhoc :
    ∃ data ∈ adhocState.info.backup, data.backupPrior = some "20200101-000000F".toList ∧
      data.backupReference = some ["20200101-000000F".toList] ∧
      Listed adhocState "20200101-000000F".toList := by
  have listed : ∃ data ∈ adhocState.info.backup,
      data.backupPrior = some "20200101-000000F".toList ∧
        data.backupReference = some ["20200101-000000F".toList] := by
    decide
  obtain ⟨data, hd, hp, hr⟩ := listed
  exact ⟨data, hd, hp, hr,
    (references_stay_listed (s := emptyState) rfl adhocState_reached hd).1 _ hp⟩

end Main

end BackupRun
