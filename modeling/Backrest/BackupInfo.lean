import Backrest.BackupManifest
import Backrest.ForwardClosure

/-!
# The list of backups in backup.info

`backup.info` records the PostgreSQL history of a stanza and one entry for each
current backup. Entries are kept in label order, which is also the order in
which backups were made, and `infoBackupDataDependentList` relies on it: it
finds the dependents of a backup in one pass from the oldest to the newest.
-/

namespace BackupInfo

open Text LexOrder BackupCommon Variants BackupManifest ForwardClosure

structure InfoPgData where
  id : Nat
  systemId : Nat
  catalogVersion : Nat
  version : Nat
  deriving DecidableEq

/-- The PostgreSQL history of an info file, newest first. -/
structure InfoPg where
  history : List InfoPgData
  historyCurrent : Nat := 0
  deriving DecidableEq

def infoPgData (this : InfoPg) (pgDataIdx : Nat) : Except Error InfoPgData :=
  lstGet this.history pgDataIdx

def infoPgDataCurrent (this : InfoPg) : Except Error InfoPgData :=
  infoPgData this this.historyCurrent

def pgVersion10 : Nat := 100000

def pgVersionToStr (version : Nat) : Str :=
  if version ≥ pgVersion10 then fmtUInt (version / 10000)
  else fmtUInt (version / 10000) ++ '.' :: fmtUInt (version % 10000 / 100)

/-- `infoPgArchiveId`: the version and the history id, such as `9.4-1`. -/
def infoPgArchiveId (pgData : InfoPgData) : Str :=
  pgVersionToStr pgData.version ++ '-' :: fmtUInt pgData.id

/-- The history id that `removeExpiredArchive` reads back from an archive id. -/
def archivePgId (archiveId : Str) : Nat :=
  match strLstNewSplit '-' archiveId with
  | _ :: id :: _ => cvtDigits id
  | _ => 0

structure InfoBackupData where
  backupLabel : Str
  backrestFormat : Nat := 0
  backrestVersion : Str := []
  backupArchiveStart : Option Str := none
  backupArchiveStop : Option Str := none
  backupInfoRepoSize : Nat := 0
  backupInfoRepoSizeDelta : Nat := 0
  backupInfoSize : Nat := 0
  backupInfoSizeDelta : Nat := 0
  backupPgId : Nat := 0
  backupPrior : Option Str := none
  backupReference : Option (List Str) := none
  backupTimestampStart : Int := 0
  backupTimestampStop : Int := 0
  backupType : BackupType := .full
  optionArchiveCheck : Bool := false
  optionArchiveCopy : Bool := false
  optionBackupStandby : Bool := false
  optionChecksumPage : Bool := false
  optionCompress : Bool := false
  optionHardlink : Bool := false
  optionOnline : Bool := false
  deriving DecidableEq

structure InfoBackup where
  infoPg : InfoPg
  backup : List InfoBackupData
  deriving DecidableEq

def infoBackupData (this : InfoBackup) (backupDataIdx : Nat) : Except Error InfoBackupData :=
  lstGet this.backup backupDataIdx

def infoBackupDataTotal (this : InfoBackup) : Nat := this.backup.length

def infoBackupDataByLabel (this : InfoBackup) (backupLabel : Str) : Option InfoBackupData :=
  this.backup.find? (fun data => data.backupLabel = backupLabel)

/-- `infoBackupDataLabelList`, with the filter in place of the expression. -/
def infoBackupDataLabelList (this : InfoBackup) (expression : Str → Bool) : List Str :=
  (this.backup.map (·.backupLabel)).filter expression

/-- `REPOSITORY_FORMAT`. -/
def repositoryFormat : Nat := 5

def fileSizeRepo (file : ManifestFile) : Nat := if file.sizeRepo > 0 then file.sizeRepo else file.size

/-- The references of a manifest, each once and in the order of first use. -/
def referenceList (manifest : Manifest) : List Str :=
  (fileReferences manifest).foldl strLstAddIfMissing []

def optionBool : Variant → Except Error Bool
  | .null => .ok false
  | v => varBool v

/-- The entry `infoBackupDataAdd` makes for a manifest. -/
def infoBackupDataNew (manifest : Manifest) : Except Error InfoBackupData := do
  let manData := manifest.data
  let own := manifest.fileList.filter (fun file => file.reference.isNone)
  let standby ← optionBool manData.backupOptionStandby
  let checksumPage ← optionBool manData.backupOptionChecksumPage
  .ok {
    backupLabel := manData.backupLabel
    backrestFormat := repositoryFormat
    backrestVersion := manData.backrestVersion
    backupInfoRepoSize := (manifest.fileList.map fileSizeRepo).sum
    backupInfoRepoSizeDelta := (own.map fileSizeRepo).sum
    backupInfoSize := (manifest.fileList.map (·.size)).sum
    backupInfoSizeDelta := (own.map (·.size)).sum
    backupPgId := manData.pgId
    backupTimestampStart := manData.backupTimestampStart
    backupTimestampStop := manData.backupTimestampStop
    backupType := manData.backupType
    backupArchiveStart := manData.archiveStart
    backupArchiveStop := manData.archiveStop
    backupReference :=
      if manData.backupType = .full then none else some (strLstSort (referenceList manifest) .asc)
    backupPrior := if manData.backupType = .full then none else manData.backupLabelPrior
    optionArchiveCheck := manData.backupOptionArchiveCheck
    optionArchiveCopy := manData.backupOptionArchiveCopy
    optionBackupStandby := standby
    optionChecksumPage := checksumPage
    optionCompress := decide (manData.backupOptionCompressType ≠ .none)
    optionHardlink := manData.backupOptionHardLink
    optionOnline := manData.backupOptionOnline }

def infoBackupDataAdd (this : InfoBackup) (manifest : Manifest) : Except Error InfoBackup := do
  let data ← infoBackupDataNew manifest
  .ok { this with backup := sortBy (·.backupLabel) (this.backup ++ [data]) }

/-- The loop of `infoBackupDataDelete`. The index moves on after a removal too, so the entry
that takes the place of a removed one is not looked at. -/
def deleteLoop (backupDeleteLabel : Str) : List InfoBackupData → List InfoBackupData
  | [] => []
  | [data] => if data.backupLabel = backupDeleteLabel then [] else [data]
  | data :: next :: rest =>
    if data.backupLabel = backupDeleteLabel then next :: deleteLoop backupDeleteLabel rest
    else data :: deleteLoop backupDeleteLabel (next :: rest)

def infoBackupDataDelete (this : InfoBackup) (backupDeleteLabel : Str) : InfoBackup :=
  { this with backup := deleteLoop backupDeleteLabel this.backup }

/-- `infoBackupDataDependentList`: the label itself and every backup that depends on it. -/
def infoBackupDataDependentList (this : InfoBackup) (backupLabel : Str) : List Str :=
  collect (·.backupLabel) (·.backupPrior) [backupLabel] this.backup

section Lists

def Ordered (backup : List InfoBackupData) : Prop :=
  backup.Pairwise (fun a b => a.backupLabel < b.backupLabel)

theorem mem_referenceList {manifest : Manifest} {r : Str} :
    r ∈ referenceList manifest ↔ r ∈ fileReferences manifest := by
  rw [referenceList, mem_foldl_strLstAddIfMissing]
  simp

/-- With distinct labels the skipped entry cannot match, so the loop deletes by label. -/
theorem deleteLoop_eq_filter {backup : List InfoBackupData} (order : Ordered backup)
    (label : Str) :
    deleteLoop label backup = backup.filter (fun data => data.backupLabel ≠ label) := by
  induction backup using deleteLoop.induct label with
  | case1 => rfl
  | case2 data h => simp [deleteLoop, h]
  | case3 data h => simp [deleteLoop, h]
  | case4 data next rest h ih =>
    obtain ⟨above, tail⟩ := List.pairwise_cons.mp order
    have different : next.backupLabel ≠ label := by
      have := above next List.mem_cons_self
      rw [h] at this
      exact this.ne'
    rw [deleteLoop, if_pos h, ih (List.pairwise_cons.mp tail).2]
    simp [h, different]
  | case5 data next rest h ih =>
    rw [deleteLoop, if_neg h, ih (List.pairwise_cons.mp order).2]
    simp [h]

theorem Ordered.sublist {backup kept : List InfoBackupData} (sub : kept.Sublist backup)
    (order : Ordered backup) : Ordered kept :=
  List.Pairwise.sublist sub order

/-- Deleting one label after another keeps the entries of every other label. -/
theorem foldl_delete_backup {info : InfoBackup} (order : Ordered info.backup)
    (labels : List Str) :
    (labels.foldl infoBackupDataDelete info).backup =
      info.backup.filter (fun data => data.backupLabel ∉ labels) := by
  induction labels generalizing info with
  | nil => simp
  | cons label rest ih =>
    have first : (infoBackupDataDelete info label).backup =
        info.backup.filter (fun data => data.backupLabel ≠ label) :=
      deleteLoop_eq_filter order label
    have order' : Ordered (infoBackupDataDelete info label).backup := by
      rw [first]
      exact order.sublist List.filter_sublist
    rw [List.foldl_cons, ih order', first, List.filter_filter]
    refine List.filter_congr (fun data _ => ?_)
    by_cases h : data.backupLabel = label <;> simp [h]

/-- A new greatest label goes to the end of the list. -/
theorem sortBy_label_concat {backup : List InfoBackupData} {data : InfoBackupData}
    (order : Ordered backup) (later : ∀ d ∈ backup, d.backupLabel < data.backupLabel) :
    sortBy (·.backupLabel) (backup ++ [data]) = backup ++ [data] := by
  apply sortBy_eq_self
  rw [List.pairwise_append]
  refine ⟨order.imp (fun h => h.le), List.pairwise_singleton _ _, ?_⟩
  intro a ha b hb
  rw [List.mem_singleton.mp hb]
  exact (later a ha).le

end Lists

end BackupInfo
