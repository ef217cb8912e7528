import Backrest.TreeWalk
import Backrest.BackupRun
import Backrest.BackupQueue

/-!
# Resuming a backup

The last backup is resumed when it has a copy of its manifest but no manifest and
the copy fits the new backup. Its directory is then cleaned: what cannot be used
again is removed, and the checksums of what can go from the resumed manifest to
the new one.
-/

namespace BackupResume

open Text BackupCommon BackupManifest FileTree Repository TreeWalk

/-- What stands at a path that is not a directory. A link is kept with the file it
leads to, if it leads to one. -/
inductive Kind where
  | file (content : RepoFile)
  | link (leadsTo : Option RepoFile)
  | special

abbrev ResumeStorage := Tree Str Kind

/-- The file that opening a path reads. -/
def fileAt (storage : ResumeStorage) (path : List Str) : Option RepoFile :=
  match storage.node path with
  | some (.file (.file content)) => some content
  | some (.file (.link leadsTo)) => leadsTo
  | _ => none

structure ResumeOption where
  resume : Bool
  type : BackupType
  compressType : CompressType
  delta : Bool

/-! ## Finding a resumable backup -/

def manifestCopyName : Str := "backup.manifest.copy".toList

def backupLast (storage : ResumeStorage) : Option Str :=
  (strLstSort ((storage.children [storageRepoBackup]).filter labelAny) .desc).head?

/-- `manifestLoadFile` when there is no `backup.manifest`, so that the copy is read. -/
def manifestCopyLoad (storage : ResumeStorage) (label : Str) : Option Manifest :=
  match fileAt storage (manifestCopyFileName label) with
  | some (.manifest manifest) => some manifest
  | _ => none

def resumeUsable (option : ResumeOption) (manifest manifestResume : Manifest) : Bool :=
  manifestResume.data.backrestVersion = manifest.data.backrestVersion ∧
  manifestResume.data.backupType = option.type ∧
  manifestResume.data.backupLabelPrior = manifest.data.backupLabelPrior ∧
  manifestResume.data.backupOptionCompressType = option.compressType

def backupResumeFind (option : ResumeOption) (manifest : Manifest) (storage : ResumeStorage) :
    Option Manifest × ResumeStorage :=
  match backupLast storage with
  | none => (none, storage)
  | some label =>
    if (fileAt storage (manifestFileName label)).isSome then (none, storage)
    else
      match (if option.resume then manifestCopyLoad storage label else none) with
      | none => (none, storage.removeTree (backupPath label))
      | some manifestResume =>
        if resumeUsable option manifest manifestResume then (some manifestResume, storage)
        else (none, storage.removeTree (backupPath label))

/-! ## Cleaning -/

def manifestPathFindDefault (this : Manifest) (name : Str) : Option ManifestPath :=
  this.pathList.find? (fun path => path.name = name)

def compressExtStrip (file : Str) (type : CompressType) : Str :=
  strSubN file 0 (file.length - (compressExtStr type).length)

structure BackupResumeData where
  manifestResume : Manifest
  compressType : CompressType
  delta : Bool
  backupPath : List Str

/-- Why a file cannot be resumed. -/
inductive RemoveReason where
  | mismatchedCompressionType
  | missingInManifest
  | referenceInManifest
  | missingInResumedManifest
  | referenceInResumedManifest
  | noChecksumInResumedManifest
  | mismatchedSize
  | mismatchedTimestamp
  | zeroSize

def removeReason (resumeData : BackupResumeData) (fileCompressType : CompressType) :
    Option ManifestFile → Option ManifestFile → Option RemoveReason
  | file, fileResume =>
    if fileCompressType ≠ resumeData.compressType then some .mismatchedCompressionType
    else
      match file with
      | none => some .missingInManifest
      | some file =>
        if file.reference.isSome then some .referenceInManifest
        else
          match fileResume with
          | none => some .missingInResumedManifest
          | some fileResume =>
            if fileResume.reference.isSome then some .referenceInResumedManifest
            else if fileResume.checksumSha1 = [] then some .noChecksumInResumedManifest
            else if file.size ≠ fileResume.size then some .mismatchedSize
            else if resumeData.delta = false ∧ file.timestamp ≠ fileResume.timestamp then
              some .mismatchedTimestamp
            else if file.size = 0 then some .zeroSize
            else none

def manifestName (resumeData : BackupResumeData) (path : List Str) : Str :=
  strLstJoin (path.drop resumeData.backupPath.length) ['/']

def fileName (name : Str) : Str :=
  if compressTypeFromName name ≠ .none then compressExtStrip name (compressTypeFromName name)
  else name

def resumeUpdate (file fileResume : ManifestFile) : FileUpdate where
  size := file.size
  sizeRepo := fileResume.sizeRepo
  checksumSha1 := some fileResume.checksumSha1
  reference := .keep
  checksumPage := fileResume.checksumPage
  checksumPageError := fileResume.checksumPageError
  checksumPageErrorList := fileResume.checksumPageErrorList

def resumeFile (resumeData : BackupResumeData) (path : List Str) (s : ResumeStorage × Manifest) :
    Except Error (ResumeStorage × Manifest) :=
  let name := manifestName resumeData path
  let file := manifestFileFindDefault s.2 (fileName name)
  let fileResume := manifestFileFindDefault resumeData.manifestResume (fileName name)
  match removeReason resumeData (compressTypeFromName name) file fileResume, file, fileResume with
  | none, some file, some fileResume =>
    match manifestFileUpdate s.2 (fileName name) (resumeUpdate file fileResume) with
    | .ok manifest => .ok (s.1, manifest)
    | .error e => .error e
  | _, _, _ => .ok (s.1.remove path, s.2)

/-- Clean invalid paths, files and links out of the backup. The entry of the directory
itself is skipped and not listed here. A directory is entered also when it was removed. -/
def backupResumeCallback (resumeData : BackupResumeData) : Visit Str Kind Manifest Error :=
  fun path node s =>
    if path = resumeData.backupPath ++ [manifestCopyName] then .ok (s, false)
    else
      match node with
      | .dir =>
        if (manifestPathFindDefault s.2 (manifestName resumeData path)).isNone then
          .ok ((s.1.removeTree path, s.2), true)
        else .ok (s, true)
      | .file (.file _) =>
        match resumeFile resumeData path s with
        | .ok s => .ok (s, false)
        | .error e => .error e
      | .file (.link _) => .ok ((s.1.remove path, s.2), false)
      | .file .special => .ok ((s.1.remove path, s.2), false)

def backupResume (fuel : Nat) (option : ResumeOption) (manifest : Manifest)
    (storage : ResumeStorage) : Except (Halt Error) (Bool × Manifest × ResumeStorage) :=
  match backupResumeFind option manifest storage with
  | (none, storage) => .ok (false, manifest, storage)
  | (some manifestResume, storage) =>
    let manifest := BackupRun.manifestBackupLabelSet manifest manifestResume.data.backupLabel
    let resumeData : BackupResumeData := {
      manifestResume := manifestResume
      compressType := option.compressType
      delta := option.delta
      backupPath := backupPath manifest.data.backupLabel }
    match walk (fun names => strLstSort names .asc) (backupResumeCallback resumeData) fuel
        resumeData.backupPath (storage, manifest) with
    | .error e => .error e
    | .ok (storage, manifest) => .ok (true, manifest, storage)

/-! ## One entry of the manifest -/

/-- An entry with what the resumed manifest says of it. -/
def resumed (fileResume file : ManifestFile) : ManifestFile :=
  { file with
    checksumSha1 := fileResume.checksumSha1
    sizeRepo := fileResume.sizeRepo
    checksumPage := fileResume.checksumPage
    checksumPageError := fileResume.checksumPageError
    checksumPageErrorList := fileResume.checksumPageErrorList }

theorem fileUpdate_resumeUpdate (file fileResume : ManifestFile) :
    fileUpdate (resumeUpdate file fileResume) file = resumed fileResume file := rfl

theorem find_manifestFileUpdate {manifest next : Manifest} {name : Str}
    {file fileResume : ManifestFile} (found : manifestFileFindDefault manifest name = some file)
    (update : manifestFileUpdate manifest name (resumeUpdate file fileResume) = .ok next)
    (other : Str) :
    manifestFileFindDefault next other =
      if other = name then some (resumed fileResume file)
      else manifestFileFindDefault manifest other := by
  simp only [manifestFileUpdate, found] at update
  cases update
  simp only [manifestFileFindDefault] at found ⊢
  rw [@find_updateFirst name (fileUpdate (resumeUpdate file fileResume)) (fun _ => rfl)]
  by_cases same : other = name
  · subst same
    rw [if_pos rfl, if_pos rfl, found, Option.map_some, fileUpdate_resumeUpdate]
  · rw [if_neg same, if_neg same]

/-! ## What a visit decides -/

/-- The manifest has the entries it started with, up to what resuming changes. -/
structure SameFiles (manifest m : Manifest) : Prop where
  paths : m.pathList = manifest.pathList
  files : ∀ name, (manifestFileFindDefault m name).map
      (fun file => (file.reference, file.size, file.timestamp)) =
    (manifestFileFindDefault manifest name).map
      (fun file => (file.reference, file.size, file.timestamp))

section Clean
variable {resumeData : BackupResumeData} {manifest : Manifest}

theorem removeReason_congr {type : CompressType} {file file' fileResume : Option ManifestFile}
    (same : file'.map (fun file => (file.reference, file.size, file.timestamp)) =
      file.map (fun file => (file.reference, file.size, file.timestamp))) :
    removeReason resumeData type file' fileResume = removeReason resumeData type file fileResume := by
  cases file with
  | none =>
    obtain rfl : file' = none := by simpa using same
    rfl
  | some file =>
    obtain ⟨file', rfl, equal⟩ := Option.map_eq_some_iff.mp same
    simp only [Prod.mk.injEq] at equal
    obtain ⟨reference, size, timestamp⟩ := equal
    simp only [removeReason, reference, size, timestamp]

def Resumable (resumeData : BackupResumeData) (manifest : Manifest) (name : Str) : Prop :=
  compressTypeFromName name = resumeData.compressType ∧
  ∃ file fileResume, manifestFileFindDefault manifest (fileName name) = some file ∧
    manifestFileFindDefault resumeData.manifestResume (fileName name) = some fileResume ∧
    file.reference = none ∧ fileResume.reference = none ∧ fileResume.checksumSha1 ≠ [] ∧
    file.size = fileResume.size ∧ file.size ≠ 0 ∧
    (resumeData.delta = false → file.timestamp = fileResume.timestamp)

theorem removeReason_eq_none {type : CompressType} {file fileResume : Option ManifestFile} :
    removeReason resumeData type file fileResume = none ↔
      type = resumeData.compressType ∧ ∃ f fr, file = some f ∧ fileResume = some fr ∧
        f.reference = none ∧ fr.reference = none ∧ fr.checksumSha1 ≠ [] ∧ f.size = fr.size ∧
        f.size ≠ 0 ∧ (resumeData.delta = false → f.timestamp = fr.timestamp) := by
  unfold removeReason
  cases file with
  | none => grind
  | some f =>
    cases fileResume with
    | none => grind
    | some fr =>
      simp only [ne_eq, Option.some.injEq, Option.isSome_iff_ne_none]
      grind

/-- What is kept: the copy of the manifest, directories of the new manifest and files that
can be resumed. -/
def keeps (resumeData : BackupResumeData) (manifest : Manifest) (path : List Str)
    (node : Node Kind) : Bool :=
  if path = resumeData.backupPath ++ [manifestCopyName] then true
  else
    match node with
    | .dir => (manifestPathFindDefault manifest (manifestName resumeData path)).isSome
    | .file (.file _) =>
      let name := manifestName resumeData path
      (removeReason resumeData (compressTypeFromName name)
        (manifestFileFindDefault manifest (fileName name))
        (manifestFileFindDefault resumeData.manifestResume (fileName name))).isNone
    | .file _ => false

/-- What keeping does to the new manifest. -/
def resumes (resumeData : BackupResumeData) (path : List Str) (node : Node Kind) (m : Manifest) :
    Manifest :=
  if path = resumeData.backupPath ++ [manifestCopyName] then m
  else
    match node with
    | .file (.file _) =>
      match resumeFile resumeData path (⟨[]⟩, m) with
      | .ok s => s.2
      | .error _ => m
    | _ => m

variable {m : Manifest} {path rest : List Str}

theorem resumeFile_kept {file fileResume : ManifestFile}
    (found : manifestFileFindDefault m (fileName (manifestName resumeData path)) = some file)
    (foundResume : manifestFileFindDefault resumeData.manifestResume
      (fileName (manifestName resumeData path)) = some fileResume)
    (kept : removeReason resumeData (compressTypeFromName (manifestName resumeData path))
      (some file) (some fileResume) = none) :
    ∃ next, (∀ t, resumeFile resumeData path (t, m) = .ok (t, next)) ∧
      next.pathList = m.pathList ∧
      ∀ other, manifestFileFindDefault next other =
        if other = fileName (manifestName resumeData path) then some (resumed fileResume file)
        else manifestFileFindDefault m other := by
  have update : ∃ next, manifestFileUpdate m (fileName (manifestName resumeData path))
      (resumeUpdate file fileResume) = .ok next ∧ next.pathList = m.pathList := by
    rw [manifestFileUpdate, found]
    exact ⟨_, rfl, rfl⟩
  obtain ⟨next, update, paths⟩ := update
  refine ⟨next, ?_, paths, find_manifestFileUpdate found update⟩
  intro t
  simp only [resumeFile, found, foundResume, kept, update]

theorem SameFiles.pathFind (same : SameFiles manifest m) (name : Str) :
    manifestPathFindDefault m name = manifestPathFindDefault manifest name := by
  simp only [manifestPathFindDefault, same.paths]

theorem SameFiles.find_some (same : SameFiles manifest m) {name : Str} {file : ManifestFile}
    (found : manifestFileFindDefault manifest name = some file) :
    ∃ file', manifestFileFindDefault m name = some file' ∧ file'.reference = file.reference ∧
      file'.size = file.size ∧ file'.timestamp = file.timestamp := by
  have files := same.files name
  rw [found, Option.map_some] at files
  obtain ⟨file', found', equal⟩ := Option.map_eq_some_iff.mp files
  simp only [Prod.mk.injEq] at equal
  exact ⟨file', found', equal.1, equal.2.1, equal.2.2⟩

theorem kept_file (same : SameFiles manifest m) {content : RepoFile}
    (notCopy : path ≠ resumeData.backupPath ++ [manifestCopyName])
    (kept : keeps resumeData manifest path (.file (.file content)) = true) :
    ∃ file fileResume next,
      manifestFileFindDefault m (fileName (manifestName resumeData path)) = some file ∧
      manifestFileFindDefault resumeData.manifestResume
        (fileName (manifestName resumeData path)) = some fileResume ∧
      (∀ t, resumeFile resumeData path (t, m) = .ok (t, next)) ∧
      resumes resumeData path (.file (.file content)) m = next ∧ SameFiles manifest next ∧
      ∀ other, manifestFileFindDefault next other =
        if other = fileName (manifestName resumeData path) then some (resumed fileResume file)
        else manifestFileFindDefault m other := by
  simp only [keeps, if_neg notCopy, Option.isNone_iff_eq_none] at kept
  obtain ⟨-, file, fileResume, found, foundResume, -⟩ := removeReason_eq_none.mp kept
  obtain ⟨file', found', -⟩ := same.find_some found
  have reason := @removeReason_congr resumeData (compressTypeFromName (manifestName resumeData path))
    _ _ (some fileResume) (same.files (fileName (manifestName resumeData path)))
  rw [found', ← foundResume, kept, foundResume] at reason
  obtain ⟨next, run, paths, finds⟩ := resumeFile_kept found' foundResume reason
  refine ⟨file', fileResume, next, found', foundResume, run, ?_, ⟨paths.trans same.paths, ?_⟩, finds⟩
  · simp only [resumes, if_neg notCopy, run]
  · intro other
    rw [finds other, ← same.files other]
    split
    · rename_i equal
      subst equal
      rw [found']
      rfl
    · rfl

theorem cleans_callback :
    Cleans (backupResumeCallback resumeData) (keeps resumeData manifest) (resumes resumeData)
      (SameFiles manifest)
      (fun path node => path = resumeData.backupPath ++ [manifestCopyName] → node ≠ .dir) where
  kept := by
    intro path node t m same possible kept
    by_cases copy : path = resumeData.backupPath ++ [manifestCopyName]
    · refine ⟨false, ?_, ?_⟩
      · simp only [backupResumeCallback, resumes, if_pos copy]
      · simpa using possible copy
    · cases node with
      | dir =>
        simp only [keeps, if_neg copy, ← same.pathFind] at kept
        refine ⟨true, ?_, by simp⟩
        have listed : (manifestPathFindDefault m (manifestName resumeData path)).isNone = false := by
          simpa using kept
        simp only [backupResumeCallback, resumes, if_neg copy, listed, Bool.false_eq_true, if_false]
      | file kind =>
        cases kind with
        | file content =>
          obtain ⟨file, fileResume, next, -, -, run, resumes_eq, -, -⟩ := kept_file same copy kept
          refine ⟨false, ?_, by simp⟩
          simp only [backupResumeCallback, if_neg copy, run, resumes_eq]
        | _ => exact absurd kept (by simp [keeps, copy])
  removed := by
    intro path node t m same possible empty notKept
    have copy : path ≠ resumeData.backupPath ++ [manifestCopyName] := by
      intro copy
      simp [keeps, copy] at notKept
    cases node with
    | dir =>
      simp only [keeps, if_neg copy, ← same.pathFind] at notKept
      refine ⟨t.removeTree path, true, ?_, fun q => node_removeTree⟩
      have missing : (manifestPathFindDefault m (manifestName resumeData path)).isNone = true := by
        simpa using notKept
      simp only [backupResumeCallback, if_neg copy, missing, if_true]
    | file kind =>
      refine ⟨t.remove path, false, ?_, node_remove_of_empty (empty (by simp))⟩
      cases kind with
      | link leadsTo => simp only [backupResumeCallback, if_neg copy]
      | special => simp only [backupResumeCallback, if_neg copy]
      | file content =>
        have reason := @removeReason_congr resumeData
          (compressTypeFromName (manifestName resumeData path)) _ _
          (manifestFileFindDefault resumeData.manifestResume
            (fileName (manifestName resumeData path)))
          (same.files (fileName (manifestName resumeData path)))
        simp only [keeps, if_neg copy, Option.isNone_eq_false_iff, ← reason] at notKept
        obtain ⟨why, isSome⟩ := Option.isSome_iff_exists.mp notKept
        have run : resumeFile resumeData path (t, m) = .ok (t.remove path, m) := by
          simp only [resumeFile, isSome]
        simp only [backupResumeCallback, if_neg copy, run]
  act_inv := by
    intro path node m same kept
    by_cases copy : path = resumeData.backupPath ++ [manifestCopyName]
    · simpa only [resumes, if_pos copy] using same
    · cases node with
      | dir => simpa only [resumes, if_neg copy] using same
      | file kind =>
        cases kind with
        | file content =>
          obtain ⟨file, fileResume, next, -, -, -, resumes_eq, same', -⟩ := kept_file same copy kept
          rw [resumes_eq]
          exact same'
        | link leadsTo => simpa only [resumes, if_neg copy] using same
        | special => simpa only [resumes, if_neg copy] using same

/-! ## The manifest after the walk -/

def resumedEntry (resumeData : BackupResumeData) (manifest : Manifest) (name : Str) :
    Option ManifestFile :=
  match manifestFileFindDefault manifest name,
      manifestFileFindDefault resumeData.manifestResume name with
  | some file, some fileResume => some (resumed fileResume file)
  | _, _ => none

def BelongsTo (resumeData : BackupResumeData) (name : Str) (entry : List Str × Node Kind) : Prop :=
  entry.1 ≠ resumeData.backupPath ++ [manifestCopyName] ∧
    (∃ content, entry.2 = .file (.file content)) ∧
    fileName (manifestName resumeData entry.1) = name

def AsBefore (resumeData : BackupResumeData) (manifest m : Manifest) (name : Str) : Prop :=
  manifestFileFindDefault m name = manifestFileFindDefault manifest name ∨
    manifestFileFindDefault m name = resumedEntry resumeData manifest name

theorem find_resumes (same : SameFiles manifest m)
    (asBefore : ∀ name, AsBefore resumeData manifest m name) {node : Node Kind}
    (kept : keeps resumeData manifest path node = true) (name : Str) :
    (BelongsTo resumeData name (path, node) →
      manifestFileFindDefault (resumes resumeData path node m) name =
        resumedEntry resumeData manifest name) ∧
    (¬ BelongsTo resumeData name (path, node) →
      manifestFileFindDefault (resumes resumeData path node m) name =
        manifestFileFindDefault m name) := by
  by_cases copy : path = resumeData.backupPath ++ [manifestCopyName]
  · refine ⟨fun belongs => absurd copy belongs.1, fun _ => ?_⟩
    simp only [resumes, if_pos copy]
  · cases node with
    | dir =>
      refine ⟨fun ⟨_, ⟨_, isFile⟩, _⟩ => absurd isFile (by simp), fun _ => ?_⟩
      simp only [resumes, if_neg copy]
    | file kind =>
      cases kind with
      | link leadsTo => exact absurd kept (by simp [keeps, copy])
      | special => exact absurd kept (by simp [keeps, copy])
      | file content =>
        obtain ⟨file, fileResume, next, found, foundResume, -, resumes_eq, -, finds⟩ :=
          kept_file same copy kept
        rw [resumes_eq, finds]
        constructor
        · rintro ⟨-, -, rfl⟩
          rw [if_pos rfl]
          -- resuming an entry twice is resuming it once
          rcases asBefore (fileName (manifestName resumeData path)) with before | before
          · rw [resumedEntry, ← before, found, foundResume]
          · rw [found] at before
            have twice := before
            rw [resumedEntry, foundResume] at twice
            rw [← before]
            cases foundNew : manifestFileFindDefault manifest
                (fileName (manifestName resumeData path)) with
            | none =>
              rw [foundNew] at twice
              exact absurd twice (by simp)
            | some fileNew =>
              rw [foundNew] at twice
              cases twice
              rfl
        · intro notHere
          rw [if_neg]
          rintro rfl
          exact notHere ⟨copy, ⟨content, rfl⟩, rfl⟩

theorem find_visited {visited : List (List Str × Node Kind)} {m : Manifest}
    (kept : ∀ entry ∈ visited, keeps resumeData manifest entry.1 entry.2 = true)
    (same : SameFiles manifest m) (asBefore : ∀ name, AsBefore resumeData manifest m name)
    (name : Str) :
    ((∃ entry ∈ visited, BelongsTo resumeData name entry) →
      manifestFileFindDefault (visited.foldl (fun m e => resumes resumeData e.1 e.2 m) m) name =
        resumedEntry resumeData manifest name) ∧
    ((∀ entry ∈ visited, ¬ BelongsTo resumeData name entry) →
      manifestFileFindDefault (visited.foldl (fun m e => resumes resumeData e.1 e.2 m) m) name =
        manifestFileFindDefault m name) := by
  induction visited generalizing m with
  | nil => simp
  | cons entry rest ih =>
    have keptFirst := kept entry List.mem_cons_self
    have step := find_resumes same asBefore keptFirst
    have same' := (@cleans_callback resumeData manifest).act_inv same keptFirst
    have asBefore' : ∀ name, AsBefore resumeData manifest (resumes resumeData entry.1 entry.2 m)
        name := by
      intro name
      by_cases belongs : BelongsTo resumeData name entry
      · exact .inr ((step name).1 belongs)
      · rw [AsBefore, (step name).2 belongs]
        exact asBefore name
    have later := ih (fun e mem => kept e (List.mem_cons_of_mem _ mem)) same' asBefore'
    rw [List.foldl_cons]
    constructor
    · rintro ⟨e, mem, belongs⟩
      by_cases inRest : ∃ e ∈ rest, BelongsTo resumeData name e
      · exact later.1 inRest
      · have first : e = entry := by
          rcases List.mem_cons.mp mem with equal | mem
          · exact equal
          · exact absurd ⟨e, mem, belongs⟩ inRest
        subst first
        rw [later.2 (fun e mem belongs => inRest ⟨e, mem, belongs⟩)]
        exact (step name).1 belongs
    · intro none
      rw [later.2 (fun e mem => none e (List.mem_cons_of_mem _ mem))]
      exact (step name).2 (none entry List.mem_cons_self)

/-! ## What is left -/

/-- Every directory above a path of the backup is in the manifest. -/
def DirsListed (manifest : Manifest) (rest : List Str) : Prop :=
  ∀ k, 0 < k → k < rest.length →
    (manifestPathFindDefault manifest (strLstJoin (rest.take k) ['/'])).isSome

@[simp]
theorem manifestName_append (rest : List Str) :
    manifestName resumeData (resumeData.backupPath ++ rest) = strLstJoin rest ['/'] := by
  rw [manifestName, List.drop_left]

/-- Whatever stands above something is a directory. -/
theorem dir_above {base : List Str} {storage : ResumeStorage} (closed : Closed base storage)
    (there : (storage.node (base ++ rest)).isSome) {k : Nat} (pos : 0 < k) (lt : k < rest.length) :
    storage.node (base ++ rest.take k) = some .dir := by
  have nonempty : rest.take k ≠ [] := by
    simp only [ne_eq, List.take_eq_nil_iff]
    rintro (zero | empty)
    · omega
    · subst empty
      simp at lt
  have nonempty' : rest.drop k ≠ [] := by
    apply List.ne_nil_of_length_pos
    rw [List.length_drop]
    omega
  apply closed.above nonempty nonempty'
  rwa [List.append_assoc, List.take_append_drop]

/-- A path is kept on all the way down when the directories above are listed and it is
kept itself. -/
theorem kept_below {storage : ResumeStorage} (closed : Closed resumeData.backupPath storage)
    (copy : storage.node (resumeData.backupPath ++ [manifestCopyName]) ≠ some .dir)
    {node : Node Kind} (nonempty : rest ≠ [])
    (at_ : storage.node (resumeData.backupPath ++ rest) = some node) :
    Kept (keeps resumeData manifest) storage resumeData.backupPath rest ↔
      DirsListed manifest rest ∧ keeps resumeData manifest (resumeData.backupPath ++ rest) node := by
  have there : (storage.node (resumeData.backupPath ++ rest)).isSome := by
    rw [at_]
    rfl
  have listed : ∀ k, 0 < k → k < rest.length →
      keeps resumeData manifest (resumeData.backupPath ++ rest.take k) .dir =
        (manifestPathFindDefault manifest (strLstJoin (rest.take k) ['/'])).isSome := by
    intro k pos lt
    rw [keeps, if_neg, manifestName_append]
    intro isCopy
    rw [← isCopy] at copy
    exact copy (dir_above closed there pos lt)
  have pos : 0 < rest.length := List.length_pos_iff.mpr nonempty
  rw [kept_iff]
  constructor
  · intro all
    constructor
    · intro k pos lt
      obtain ⟨above, at', kept⟩ := all k pos (by omega)
      rw [dir_above closed there pos lt] at at'
      cases at'
      rwa [listed k pos lt] at kept
    · obtain ⟨node', at', kept⟩ := all rest.length pos (Nat.le_refl _)
      rw [List.take_length] at at' kept
      rw [at_] at at'
      cases at'
      exact kept
  · rintro ⟨dirs, kept⟩ k pos le
    by_cases last : k = rest.length
    · subst last
      rw [List.take_length]
      exact ⟨node, at_, kept⟩
    · have lt : k < rest.length := by omega
      refine ⟨.dir, dir_above closed there pos lt, ?_⟩
      rw [listed k pos lt]
      exact dirs k pos lt

theorem keeps_file {content : RepoFile} (notCopy : rest ≠ [manifestCopyName]) :
    keeps resumeData manifest (resumeData.backupPath ++ rest) (.file (.file content)) = true ↔
      Resumable resumeData manifest (strLstJoin rest ['/']) := by
  rw [keeps, if_neg (by simpa using notCopy)]
  simp only [manifestName_append, Option.isNone_iff_eq_none, removeReason_eq_none]
  exact Iff.rfl

def BackupFile (resumeData : BackupResumeData) (storage : ResumeStorage) (rest : List Str) : Prop :=
  rest ≠ [] ∧ rest ≠ [manifestCopyName] ∧
    ∃ content, storage.node (resumeData.backupPath ++ rest) = some (.file (.file content))

structure Cleaned (resumeData : BackupResumeData) (manifest manifest' : Manifest)
    (storage storage' : ResumeStorage) : Prop where
  /-- A file is left when it can be resumed and its directories are in the new manifest. -/
  files : ∀ rest, BackupFile resumeData storage' rest ↔ BackupFile resumeData storage rest ∧
    DirsListed manifest rest ∧ Resumable resumeData manifest (strLstJoin rest ['/'])
  /-- No link, special file or directory that is not in the new manifest is left. -/
  others : ∀ rest node, rest ≠ [] → rest ≠ [manifestCopyName] →
    storage'.node (resumeData.backupPath ++ rest) = some node →
      (∃ content, node = .file (.file content)) ∨
      node = .dir ∧ (manifestPathFindDefault manifest (strLstJoin rest ['/'])).isSome
  /-- The entry of a file that is left is resumed. -/
  gained : ∀ rest, BackupFile resumeData storage' rest → ∃ file fileResume,
    manifestFileFindDefault manifest (fileName (strLstJoin rest ['/'])) = some file ∧
    manifestFileFindDefault resumeData.manifestResume (fileName (strLstJoin rest ['/'])) =
      some fileResume ∧
    manifestFileFindDefault manifest' (fileName (strLstJoin rest ['/'])) =
      some (resumed fileResume file)
  /-- Every other entry is as it was. -/
  same : ∀ name,
    (∀ rest, BackupFile resumeData storage' rest → fileName (strLstJoin rest ['/']) ≠ name) →
    manifestFileFindDefault manifest' name = manifestFileFindDefault manifest name
  /-- What is left has not changed. -/
  unchanged : ∀ path node, storage'.node path = some node → storage.node path = some node
  /-- Nothing but what the backup holds is touched, and not the copy of the manifest. -/
  outside : ∀ path, (∀ rest, rest ≠ [] → rest ≠ [manifestCopyName] →
    path ≠ resumeData.backupPath ++ rest) → storage'.node path = storage.node path

section Walk
variable {storage storage' : ResumeStorage} {start manifest' : Manifest}

theorem backupFile_left (closed : Closed resumeData.backupPath storage)
    (copy : storage.node (resumeData.backupPath ++ [manifestCopyName]) ≠ some .dir)
    (walked : Walked (keeps resumeData manifest) (resumes resumeData) (SameFiles manifest)
      resumeData.backupPath
      (fun name => (storage.node (resumeData.backupPath ++ [name])).isSome) storage storage'
      start manifest') (rest : List Str) :
    BackupFile resumeData storage' rest ↔ BackupFile resumeData storage rest ∧
      DirsListed manifest rest ∧ Resumable resumeData manifest (strLstJoin rest ['/']) := by
  constructor
  · rintro ⟨nonempty, notCopy, content, at_⟩
    obtain ⟨there, kept⟩ := (walked.left_iff closed nonempty).mp at_
    obtain ⟨dirs, keeps⟩ := (kept_below closed copy nonempty there).mp kept
    exact ⟨⟨nonempty, notCopy, content, there⟩, dirs, (keeps_file notCopy).mp keeps⟩
  · rintro ⟨⟨nonempty, notCopy, content, there⟩, dirs, resumable⟩
    refine ⟨nonempty, notCopy, content, (walked.left_iff closed nonempty).mpr ⟨there, ?_⟩⟩
    exact (kept_below closed copy nonempty there).mpr ⟨dirs, (keeps_file notCopy).mpr resumable⟩

theorem belongs_iff (closed : Closed resumeData.backupPath storage)
    (walked : Walked (keeps resumeData manifest) (resumes resumeData) (SameFiles manifest)
      resumeData.backupPath
      (fun name => (storage.node (resumeData.backupPath ++ [name])).isSome) storage storage'
      start manifest') {visited : List (List Str × Node Kind)}
    (mem : ∀ p node, (p, node) ∈ visited ↔ ∃ name rest,
      (storage.node (resumeData.backupPath ++ [name])).isSome ∧
        p = resumeData.backupPath ++ name :: rest ∧ storage.node p = some node ∧
        Kept (keeps resumeData manifest) storage resumeData.backupPath (name :: rest))
    (name : Str) :
    (∃ entry ∈ visited, BelongsTo resumeData name entry) ↔
      ∃ rest, BackupFile resumeData storage' rest ∧ fileName (strLstJoin rest ['/']) = name := by
  constructor
  · rintro ⟨⟨p, node⟩, isVisited, notCopy, ⟨content, isFile⟩, named⟩
    obtain ⟨top, rest, -, rfl, at_, kept⟩ := (mem p node).mp isVisited
    cases isFile
    rw [manifestName_append] at named
    refine ⟨top :: rest, ⟨by simp, ?_, content, ?_⟩, named⟩
    · rintro equal
      exact notCopy (by rw [equal])
    · exact (walked.left_iff closed (by simp)).mpr ⟨at_, kept⟩
  · rintro ⟨rest, ⟨nonempty, notCopy, content, at_⟩, named⟩
    obtain ⟨there, kept⟩ := (walked.left_iff closed nonempty).mp at_
    obtain ⟨top, rest, rfl⟩ := List.exists_cons_of_ne_nil nonempty
    refine ⟨(resumeData.backupPath ++ top :: rest, .file (.file content)), ?_, ?_, ⟨content, rfl⟩, ?_⟩
    · rw [mem]
      obtain ⟨⟨node, first, -⟩, -⟩ := kept
      exact ⟨top, rest, by simp [first], rfl, there, (walked.left_iff closed nonempty).mp at_ |>.2⟩
    · simpa using notCopy
    · rw [manifestName_append]
      exact named

theorem cleaned_of_walked (same : SameFiles manifest start)
    (starts : ∀ name, manifestFileFindDefault start name = manifestFileFindDefault manifest name)
    (closed : Closed resumeData.backupPath storage)
    (copy : storage.node (resumeData.backupPath ++ [manifestCopyName]) ≠ some .dir)
    (walked : Walked (keeps resumeData manifest) (resumes resumeData) (SameFiles manifest)
      resumeData.backupPath
      (fun name => (storage.node (resumeData.backupPath ++ [name])).isSome) storage storage'
      start manifest') :
    Cleaned resumeData manifest manifest' storage storage' := by
  obtain ⟨visited, acted, mem⟩ := walked.acts
  have kept : ∀ entry ∈ visited, keeps resumeData manifest entry.1 entry.2 = true := by
    rintro ⟨p, node⟩ isVisited
    obtain ⟨top, rest, -, rfl, at_, kept⟩ := (mem p node).mp isVisited
    exact ((kept_below closed copy (by simp) at_).mp kept).2
  have finds := @find_visited resumeData manifest visited start kept same
    (fun name => .inl (starts name))
  rw [← acted] at finds
  constructor
  case files => exact backupFile_left closed copy walked
  case others =>
    intro rest node nonempty notCopy at_
    obtain ⟨there, keptDown⟩ := (walked.left_iff closed nonempty).mp at_
    obtain ⟨-, keptHere⟩ := (kept_below closed copy nonempty there).mp keptDown
    have notCopy' : ¬ resumeData.backupPath ++ rest = resumeData.backupPath ++ [manifestCopyName] := by
      simpa using notCopy
    simp only [keeps, if_neg notCopy'] at keptHere
    cases node with
    | dir =>
      rw [manifestName_append] at keptHere
      exact .inr ⟨rfl, keptHere⟩
    | file kind =>
      cases kind with
      | file content => exact .inl ⟨content, rfl⟩
      | _ => exact absurd keptHere (by simp)
  case gained =>
    intro rest isLeft
    obtain ⟨-, -, -, file, fileResume, found, foundResume, -⟩ :=
      (backupFile_left closed copy walked rest).mp isLeft
    refine ⟨file, fileResume, found, foundResume, ?_⟩
    rw [(finds _).1 ((belongs_iff closed walked mem _).mpr ⟨rest, isLeft, rfl⟩), resumedEntry, found,
      foundResume]
  case same =>
    intro name none
    rw [← starts name]
    apply (finds name).2
    intro entry isVisited belongs
    obtain ⟨rest, isLeft, named⟩ :=
      (belongs_iff closed walked mem name).mp ⟨entry, isVisited, belongs⟩
    exact none rest isLeft named
  case unchanged =>
    intro path node at_
    by_cases inside : ∃ rest, rest ≠ [] ∧ path = resumeData.backupPath ++ rest
    · obtain ⟨rest, nonempty, rfl⟩ := inside
      exact ((walked.left_iff closed nonempty).mp at_).1
    · rwa [walked.apart (fun rest nonempty equal => inside ⟨rest, nonempty, equal⟩)] at at_
  case outside =>
    intro path apart
    by_cases isCopy : path = resumeData.backupPath ++ [manifestCopyName]
    · subst isCopy
      apply Option.ext
      intro node
      rw [walked.left_iff closed (by simp)]
      constructor
      · intro both
        exact both.1
      · intro there
        refine ⟨there, (kept_below closed copy (by simp) there).mpr ⟨?_, by simp [keeps]⟩⟩
        intro k pos lt
        simp at lt
        omega
    · apply walked.apart
      intro rest nonempty equal
      apply apart rest nonempty _ equal
      rintro rfl
      exact isCopy equal

end Walk

end Clean

/-! ## A run -/

/-- What the files of a backup that is resumed are checked against. -/
def resumeDataOf (option : ResumeOption) (manifestResume : Manifest) : BackupResumeData where
  manifestResume := manifestResume
  compressType := option.compressType
  delta := option.delta
  backupPath := backupPath manifestResume.data.backupLabel

/-- A resumed backup is cleaned. The copy of the manifest was read, so that it is not a
directory. -/
theorem backupResume_cleans {option : ResumeOption} {manifest manifestResume : Manifest}
    {storage : ResumeStorage} (found : (backupResumeFind option manifest storage).1 = some manifestResume)
    (closed : Closed (backupPath manifestResume.data.backupLabel) storage)
    (copy : storage.node (manifestCopyFileName manifestResume.data.backupLabel) ≠ some .dir) :
    ∃ enough, ∀ fuel, enough ≤ fuel → ∃ manifest' storage',
      backupResume fuel option manifest storage = .ok (true, manifest', storage') ∧
        Cleaned (resumeDataOf option manifestResume) manifest manifest' storage storage' := by
  obtain ⟨enough, pos, depth⟩ :=
    exists_depth (backupPath manifestResume.data.backupLabel) storage
  refine ⟨enough, ?_⟩
  intro fuel le
  have find : backupResumeFind option manifest storage = (some manifestResume, storage) := by
    unfold backupResumeFind at found ⊢
    grind
  obtain ⟨storage', manifest', walked, spec⟩ :=
    walk_spec (fun names => strLstSort_perm names .asc)
      (@cleans_callback (resumeDataOf option manifestResume) manifest) fuel
      (backupPath manifestResume.data.backupLabel) storage
      (BackupRun.manifestBackupLabelSet manifest manifestResume.data.backupLabel)
      (by omega) (depth fuel le) closed (by
        rintro q node at_ rfl rfl
        exact copy at_) ⟨rfl, fun _ => rfl⟩
  refine ⟨manifest', storage', ?_, ?_⟩
  · simp only [resumeDataOf, BackupRun.manifestBackupLabelSet] at walked
    simp only [backupResume, find, BackupRun.manifestBackupLabelSet, walked]
  · have same : SameFiles manifest
        (BackupRun.manifestBackupLabelSet manifest manifestResume.data.backupLabel) :=
      ⟨rfl, fun _ => rfl⟩
    exact cleaned_of_walked same (fun _ => rfl) closed copy spec

section Example

def exampleLabel : Str := "20210101-000000F".toList

def exampleFile : ManifestFile := { name := "pg_data/PG_VERSION".toList, size := 3, timestamp := 7 }

def exampleOption : ResumeOption where
  resume := true
  type := .full
  compressType := .none
  delta := false

/-- The manifest of the interrupted backup, with the checksum of the file copied already. -/
def exampleResume : Manifest where
  data := { backupLabel := exampleLabel }
  fileList := [{ exampleFile with checksumSha1 := "c1".toList, sizeRepo := 3 }]

/-- A new manifest with or without the directory of the file. -/
def exampleManifest (pathList : List ManifestPath) : Manifest where
  fileList := [exampleFile]
  pathList := pathList

/-- An interrupted backup whose copy of the manifest is a file or a link. -/
def exampleStorage (copy : Kind) : ResumeStorage :=
  ⟨[([storageRepoBackup], .dir),
    (backupPath exampleLabel, .dir),
    (manifestCopyFileName exampleLabel, .file copy),
    (backupPath exampleLabel ++ ["pg_data".toList], .dir),
    (backupPath exampleLabel ++ ["pg_data".toList, "PG_VERSION".toList], .file (.file .other))]⟩

theorem closed_exampleStorage (copy : Kind) :
    Closed (backupPath exampleLabel) (exampleStorage copy) := by
  intro rest name nonempty isSome
  have pos : 0 < rest.length := List.length_pos_iff.mpr nonempty
  obtain ⟨entry, mem, equal⟩ := lookup_isSome.mp isSome
  have long : 2 + rest.length + 1 = entry.1.length := by
    rw [equal, List.length_append, List.length_append]
    rfl
  simp only [exampleStorage, List.mem_cons, List.not_mem_nil, or_false] at mem
  rcases mem with rfl | rfl | rfl | rfl | rfl
  · change 2 + rest.length + 1 = 1 at long
    omega
  · change 2 + rest.length + 1 = 2 at long
    omega
  · change 2 + rest.length + 1 = 3 at long
    omega
  · change 2 + rest.length + 1 = 3 at long
    omega
  · rw [List.append_assoc] at equal
    have below : ["pg_data".toList] ++ ["PG_VERSION".toList] = rest ++ [name] :=
      List.append_cancel_left equal
    obtain rfl := (List.append_inj' below rfl).1
    rfl

theorem backupResume_cleans_listed :
    ∃ enough, ∀ fuel, enough ≤ fuel → ∃ manifest' storage',
      backupResume fuel exampleOption (exampleManifest [⟨"pg_data".toList, 0, none, none⟩])
          (exampleStorage (.file (.manifest exampleResume))) = .ok (true, manifest', storage') ∧
        Cleaned (resumeDataOf exampleOption exampleResume)
          (exampleManifest [⟨"pg_data".toList, 0, none, none⟩]) manifest'
          (exampleStorage (.file (.manifest exampleResume))) storage' := by
  apply backupResume_cleans
  · rfl
  · exact closed_exampleStorage _
  · exact fun isDir => nomatch isDir

/-- A link to the copy of the manifest is left, and a file that could be resumed is removed
with its directory when the new manifest does not have the directory. -/
theorem backupResume_leaves_link_removes_unlisted :
    ∃ manifest' storage',
      backupResume 4 exampleOption (exampleManifest [])
          (exampleStorage (.link (some (.manifest exampleResume)))) =
        .ok (true, manifest', storage') ∧
      storage'.node (manifestCopyFileName exampleLabel) =
        some (.file (.link (some (.manifest exampleResume)))) ∧
      Resumable (resumeDataOf exampleOption exampleResume) (exampleManifest [])
        "pg_data/PG_VERSION".toList ∧
      storage'.node (backupPath exampleLabel ++ ["pg_data".toList, "PG_VERSION".toList]) = none := by
  refine ⟨_, _, rfl, rfl, ⟨rfl, _, _, rfl, rfl, rfl, rfl, ?_, rfl, ?_, fun _ => rfl⟩, rfl⟩
  · exact List.cons_ne_nil _ _
  · decide

end Example

end BackupResume
