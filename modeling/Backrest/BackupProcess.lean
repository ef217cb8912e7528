import Backrest.BackupFile
import Backrest.BackupResume

/-!
# Processing a backup

Clients take files from the queues, local processes back them up, and the results
reach the manifest in any order. The files of the repository, the queues and the
results that are still to be read make up the state, and a run is a list of what
happened. The copies of the manifest that are saved on the way are files of their
own and left out.
-/

namespace BackupProcess

open Text Variants BackupCommon BackupManifest BackupQueue BackupFile

/-- Where a client reads. The first client is always on the primary. -/
inductive Host where
  | primary
  | standby
  deriving DecidableEq

/-- The source at each moment: an error, a missing file or its content. -/
abbrev Source := Host → Nat → Str → Except Error (Option Bytes)

structure ProcessOption where
  queue : BackupOption
  compressType : CompressType
  compressLevel : Int
  cipherSubPass : Option Str
  lsnStart : Nat

/-- A job that was done: when it read the source, what else it met and its result. -/
structure Work where
  job : BackupJob
  host : Host
  checkTime : Nat
  copyTime : Nat
  repoRead : Option Error
  repoWrite : Option (Error × Bytes)
  salt : Nat
  result : Except Error BackupFileResult

def jobWorld (source : Source) (job : BackupJob) (host : Host) (checkTime copyTime : Nat)
    (repoRead : Option Error) (repoWrite : Option (Error × Bytes)) (salt : Nat) : JobWorld where
  check := source host checkTime (job.param.pgFile.getD [])
  copy := source host copyTime (job.param.pgFile.getD [])
  repoRead := repoRead
  repoWrite := repoWrite
  salt := salt

def Work.world (source : Source) (work : Work) : JobWorld :=
  jobWorld source work.job work.host work.checkTime work.copyTime work.repoRead work.repoWrite
    work.salt

/-- The results in `handled` have been read; they are only kept to speak of them. -/
structure State where
  manifest : Manifest
  store : Store
  jobData : BackupJobData
  running : List (Host × BackupJob) := []
  done : List Work := []
  fileRemove : List Str := []
  sizeCopied : Nat := 0
  handled : List Work := []

def pageErrors : Option PageChecksumResult → Bool × Option (List Variant)
  | none => (false, none)
  | some result =>
    if result.valid then (false, none)
    else if result.align then (true, some result.error)
    else (true, none)

/-- The update of an entry whose file was copied. It loses its reference. -/
def copyUpdate (file : ManifestFile) (result : BackupFileResult) : FileUpdate where
  size := result.copySize
  sizeRepo := result.repoSize
  checksumSha1 := result.copyChecksum
  reference := .set none
  checksumPage := file.checksumPage
  checksumPageError := (pageErrors result.pageChecksumResult).1
  checksumPageErrorList := (pageErrors result.pageChecksumResult).2

/-- Read the result of a job. A file that was removed during the backup is taken out of the
manifest when the backup is complete. -/
def backupJobResult (manifest : Manifest) (fileRemove : List Str) (key : Str)
    (result : Except Error BackupFileResult) (sizeCopied : Nat) :
    Except Error (Manifest × List Str × Nat) :=
  match result with
  | .error e => .error e
  | .ok result =>
    match manifestFileFindDefault manifest key with
    | none => .error (fileFindError key)
    | some file =>
      let sizeCopied := (sizeCopied + result.copySize) % 2 ^ 64
      match result.backupCopyResult with
      | .noOp => .ok (manifest, fileRemove, sizeCopied)
      | .checksum => .ok (manifest, fileRemove, sizeCopied)
      | .skip => .ok (manifest, fileRemove ++ [file.name], sizeCopied)
      | .copy | .reCopy =>
        match manifestFileUpdate manifest file.name (copyUpdate file result) with
        | .error e => .error e
        | .ok manifest => .ok (manifest, fileRemove, sizeCopied)

inductive Event where
  | request (clientIdx : Nat)
  | work (idx checkTime copyTime : Nat) (repoRead : Option Error)
      (repoWrite : Option (Error × Bytes)) (salt : Nat)
  | result (idx : Nat)

def clientHost (jobData : BackupJobData) (clientIdx : Nat) : Host :=
  if jobData.backupStandby && decide (0 < clientIdx) then .standby else .primary

/-- One thing that happens. An index that is not there is nothing. -/
def step (f : Filters) (source : Source) (s : State) : Event → Except Error State
  | .request clientIdx =>
    match backupJobCallback s.jobData.queueList.length s.jobData clientIdx with
    | none => .ok s
    | some (none, jobData) => .ok { s with jobData := jobData }
    | some (some job, jobData) =>
      .ok { s with
        jobData := jobData
        running := s.running ++ [(clientHost s.jobData clientIdx, job)] }
  | .work idx checkTime copyTime repoRead repoWrite salt =>
    match s.running[idx]? with
    | none => .ok s
    | some (host, job) =>
      let ran := backupFile f job.param
        (jobWorld source job host checkTime copyTime repoRead repoWrite salt) s.store
      .ok { s with
        store := ran.2
        running := s.running.eraseIdx idx
        done := s.done ++ [⟨job, host, checkTime, copyTime, repoRead, repoWrite, salt, ran.1⟩] }
  | .result idx =>
    match s.done[idx]? with
    | none => .ok s
    | some work =>
      match backupJobResult s.manifest s.fileRemove work.job.key work.result s.sizeCopied with
      | .error e => .error e
      | .ok (manifest, fileRemove, sizeCopied) =>
        .ok { s with
          manifest := manifest
          done := s.done.eraseIdx idx
          fileRemove := fileRemove
          sizeCopied := sizeCopied
          handled := s.handled ++ [work] }

def jobDataNew (option : ProcessOption) (manifest : Manifest)
    (queueList : List (List ManifestFile)) : BackupJobData where
  backupLabel := manifest.data.backupLabel
  backupStandby := option.queue.backupStandby
  cipherSubPass := option.cipherSubPass
  compressType := option.compressType
  compressLevel := option.compressLevel
  delta := option.queue.delta
  lsnStart := option.lsnStart
  queueList := queueList

/-- All queues are empty and all results have been read. -/
def Over (s : State) : Prop := s.jobData.queueList.flatten = [] ∧ s.running = [] ∧ s.done = []

/-- Take out the files that were removed during the backup. -/
def removeFiles (s : State) : Except Error Manifest :=
  s.fileRemove.foldlM manifestFileRemove s.manifest

/-- The manifest `backupProcess` leaves and the last state, when these things happened. -/
inductive Processed (f : Filters) (source : Source) (option : ProcessOption) (manifest : Manifest)
    (store : Store) (manifest' : Manifest) (s : State) : Prop
  | intro (sizeTotal : Nat) (queueList : List (List ManifestFile)) (events : List Event)
      (built : backupProcessQueue option.queue manifest = .ok (sizeTotal, queueList))
      (ran : events.foldlM (step f source)
        { manifest := manifest, store := store, jobData := jobDataNew option manifest queueList } =
          .ok s)
      (isOver : Over s) (removed : removeFiles s = .ok manifest')

/-! ## Entries by name -/

section Names
variable {manifest manifest' : Manifest}

/-- Names are unique in a manifest, as the order of the queues needs them to be. -/
def UniqueNames (manifest : Manifest) : Prop := (manifest.fileList.map (·.name)).Nodup

theorem find_name_of_mem {fileList : List ManifestFile} (unique : (fileList.map (·.name)).Nodup)
    {file : ManifestFile} (mem : file ∈ fileList) :
    fileList.find? (fun other => other.name = file.name) = some file := by
  induction fileList with
  | nil => exact absurd mem List.not_mem_nil
  | cons head rest ih =>
    obtain ⟨notIn, unique⟩ := List.nodup_cons.mp unique
    rcases List.mem_cons.mp mem with rfl | mem
    · simp
    · have differ : head.name ≠ file.name := by
        intro equal
        exact notIn (List.mem_map.mpr ⟨file, mem, equal.symm⟩)
      rw [List.find?_cons_of_neg (by simpa using differ)]
      exact ih unique mem

theorem name_ne_of_mem_eraseP {fileList : List ManifestFile} {name : Str}
    (unique : (fileList.map (·.name)).Nodup) {file : ManifestFile}
    (mem : file ∈ fileList.eraseP fun file => file.name = name) : file.name ≠ name := by
  induction fileList with
  | nil => exact absurd mem List.not_mem_nil
  | cons head rest ih =>
    obtain ⟨notIn, unique⟩ := List.nodup_cons.mp unique
    by_cases here : head.name = name
    · rw [List.eraseP_cons_of_pos (by simpa using here)] at mem
      intro equal
      exact notIn (List.mem_map.mpr ⟨file, mem, equal.trans here.symm⟩)
    · rw [List.eraseP_cons_of_neg (by simpa using here)] at mem
      rcases List.mem_cons.mp mem with rfl | mem
      · exact here
      · exact ih unique mem

theorem names_updateFirst {name : Str} {change : ManifestFile → ManifestFile}
    (named : ∀ file, (change file).name = file.name) (fileList : List ManifestFile) :
    (updateFirst name change fileList).map (·.name) = fileList.map (·.name) := by
  induction fileList with
  | nil => rfl
  | cons file rest ih =>
    rw [updateFirst]
    split
    · rw [List.map_cons, named, List.map_cons]
    · rw [List.map_cons, ih, List.map_cons]

theorem mem_removed {names : List Str} (unique : UniqueNames manifest)
    (removed : names.foldlM manifestFileRemove manifest = .ok manifest') {file : ManifestFile}
    (mem : file ∈ manifest'.fileList) : file ∈ manifest.fileList ∧ file.name ∉ names := by
  induction names generalizing manifest with
  | nil =>
    cases removed
    exact ⟨mem, List.not_mem_nil⟩
  | cons name rest ih =>
    rw [List.foldlM_cons] at removed
    obtain ⟨middle, first, later⟩ := Effects.except_bind_ok removed
    rw [manifestFileRemove] at first
    split at first
    · exact absurd first (by simp)
    · cases first
      have sub : (manifest.fileList.eraseP fun file => decide (file.name = name)).Sublist
          manifest.fileList := List.eraseP_sublist
      have unique' : UniqueNames { manifest with
          fileList := manifest.fileList.eraseP fun file => decide (file.name = name) } :=
        unique.sublist (sub.map _)
      obtain ⟨inMiddle, notIn⟩ := ih unique' later
      refine ⟨sub.mem inMiddle, ?_⟩
      simp only [List.mem_cons, not_or]
      exact ⟨name_ne_of_mem_eraseP unique inMiddle, notIn⟩

end Names

/-! ## What holds in every state -/

section Run
variable {f : Filters} {source : Source} {option : ProcessOption} {manifest : Manifest} {s s' : State}

/-- The files of all jobs, from those in the queues to those whose result was read. -/
def State.files (s : State) : List ManifestFile :=
  s.jobData.queueList.flatten ++ (s.running.map (·.2.file) ++
    (s.done.map (·.job.file) ++ s.handled.map (·.job.file)))

/-- What reading a result did to the entry of its file. -/
def ReadBy (manifest : Manifest) (fileRemove : List Str) (work : Work) : Prop :=
  ∃ result, work.result = .ok result ∧
    match result.backupCopyResult with
    | .noOp => manifestFileFindDefault manifest work.job.file.name = some work.job.file
    | .checksum => manifestFileFindDefault manifest work.job.file.name = some work.job.file
    | .skip => work.job.file.name ∈ fileRemove
    | .copy | .reCopy =>
      manifestFileFindDefault manifest work.job.file.name =
        some (fileUpdate (copyUpdate work.job.file result) work.job.file)

/-- A job is the one of its file, and what it did is to be seen in the repository. -/
def Worked (f : Filters) (source : Source) (option : ProcessOption) (manifest : Manifest)
    (store : Store) (work : Work) : Prop :=
  work.job = backupJob (jobDataNew option manifest []) work.job.file ∧
    ∀ result, work.result = .ok result →
      Outcome f work.job.param (work.world source) store result

structure Inv (f : Filters) (source : Source) (option : ProcessOption) (manifest : Manifest)
    (s : State) : Prop where
  enough : Enough s.jobData
  jobData : s.jobData = jobDataNew option manifest s.jobData.queueList
  files : s.files.Perm (queuedFiles option.queue manifest)
  names : s.manifest.fileList.map (·.name) = manifest.fileList.map (·.name)
  running : ∀ r ∈ s.running, r.2 = backupJob (jobDataNew option manifest []) r.2.file
  worked : ∀ work ∈ s.done ++ s.handled, Worked f source option manifest s.store work
  untouched : ∀ file ∈ manifest.fileList,
    (∀ work ∈ s.handled, work.job.file.name ≠ file.name) →
    manifestFileFindDefault s.manifest file.name = some file
  read : ∀ work ∈ s.handled, ReadBy s.manifest s.fileRemove work

theorem Inv.nodup (inv : Inv f source option manifest s) (unique : UniqueNames manifest) :
    (s.files.map (·.name)).Nodup := by
  apply (inv.files.map _).nodup_iff.mpr
  exact unique.sublist (List.filter_sublist.map _)

variable {work : Work} {file : ManifestFile} {store : Store}

theorem Inv.mem (inv : Inv f source option manifest s) (mem : file ∈ s.files) :
    file ∈ manifest.fileList :=
  (List.mem_filter.mp (inv.files.mem_iff.mp mem)).1

/-- Jobs for different files have different files in the repository. -/
theorem paramPathFile_injective {jobData : BackupJobData} {file' : ManifestFile}
    (same : paramPathFile (backupJob jobData file).param =
      paramPathFile (backupJob jobData file').param) : file.name = file'.name := by
  simpa [paramPathFile, repoPathFile, backupJob] using same

theorem inv_request (inv : Inv f source option manifest s) {clientIdx : Nat}
    (run : step f source s (.request clientIdx) = .ok s') : Inv f source option manifest s' := by
  obtain ⟨answer, call, found⟩ := backupJobCallback_spec inv.enough (Nat.le_refl _) clientIdx
  rw [step, call] at run
  rcases found with ⟨queueIdx, file, rest, -, at_, rfl⟩ | ⟨-, rfl⟩
  · cases run
    refine { inv with enough := ?_, jobData := ?_, files := ?_, running := ?_ }
    · simpa [Enough] using inv.enough
    · rw [inv.jobData]
      rfl
    · refine List.Perm.trans ?_ inv.files
      have taken := flatten_set_perm at_
      simp only [State.files, List.map_append, List.map_cons, List.map_nil, List.append_assoc,
        List.cons_append, List.nil_append]
      refine List.Perm.trans ?_ (taken.append_right _)
      rw [← List.append_assoc, List.cons_append, ← List.append_assoc]
      exact List.perm_middle
    · intro r mem
      rcases List.mem_append.mp mem with mem | mem
      · exact inv.running r mem
      · obtain rfl := List.mem_singleton.mp mem
        rw [inv.jobData]
        rfl
  · cases run
    exact inv

theorem Inv.running_apart (inv : Inv f source option manifest s) (unique : UniqueNames manifest)
    {r : Host × BackupJob} (mem : r ∈ s.running) (mem' : work ∈ s.done ++ s.handled) :
    r.2.file.name ≠ work.job.file.name := by
  have nodup := inv.nodup unique
  rw [State.files, List.map_append, List.nodup_append] at nodup
  have later := nodup.2.1
  rw [List.map_append, List.nodup_append] at later
  apply later.2.2
  · exact List.mem_map_of_mem (List.mem_map_of_mem mem)
  · rw [← List.map_append]
    exact List.mem_map_of_mem (List.mem_map_of_mem mem')

/-- A result that was not read is of another file than those that were. -/
theorem Inv.done_apart (inv : Inv f source option manifest s) (unique : UniqueNames manifest)
    (mem : work ∈ s.done) {work' : Work} (mem' : work' ∈ s.handled) :
    work'.job.file.name ≠ work.job.file.name := by
  have nodup := inv.nodup unique
  rw [State.files, List.map_append, List.nodup_append] at nodup
  have later := nodup.2.1
  rw [List.map_append, List.nodup_append] at later
  have last := later.2.1
  rw [List.map_append, List.nodup_append] at last
  apply Ne.symm
  apply last.2.2
  · exact List.mem_map_of_mem (List.mem_map_of_mem mem)
  · exact List.mem_map_of_mem (List.mem_map_of_mem mem')

/-- A job keeps what the jobs for other files did. -/
theorem Worked.frame {store' : Store} {job : BackupJob}
    (worked : Worked f source option manifest store work)
    (isJob : job = backupJob (jobDataNew option manifest []) job.file)
    (apart : job.file.name ≠ work.job.file.name)
    (same : SameBut (paramPathFile job.param) store store') :
    Worked f source option manifest store' work := by
  obtain ⟨isWork, outcome⟩ := worked
  refine ⟨isWork, ?_⟩
  intro result ok
  apply (outcome result ok).congr
  apply same
  intro equal
  rw [isJob, isWork] at equal
  exact apart (paramPathFile_injective equal).symm

theorem inv_work (inv : Inv f source option manifest s) (unique : UniqueNames manifest)
    {idx checkTime copyTime salt : Nat} {repoRead : Option Error} {repoWrite : Option (Error × Bytes)}
    (run : step f source s (.work idx checkTime copyTime repoRead repoWrite salt) = .ok s') :
    Inv f source option manifest s' := by
  rw [step] at run
  split at run
  · cases run
    exact inv
  · rename_i host job at_
    cases run
    have mem : (host, job) ∈ s.running := List.mem_of_getElem? at_
    have isJob := inv.running _ mem
    obtain ⟨inside, atIdx⟩ := List.getElem?_eq_some_iff.mp at_
    refine { inv with files := ?_, running := ?_, worked := ?_ }
    · refine List.Perm.trans ?_ inv.files
      have taken := (List.getElem_cons_eraseIdx_perm inside).map (·.2.file)
      rw [atIdx, List.map_cons] at taken
      simp only [State.files, List.map_append, List.map_cons, List.map_nil, List.append_assoc,
        List.cons_append, List.nil_append]
      apply List.Perm.append_left
      refine List.Perm.trans ?_ (taken.append_right _)
      rw [← List.append_assoc, List.cons_append, ← List.append_assoc]
      exact List.perm_middle
    · intro r mem
      exact inv.running r (List.mem_of_mem_eraseIdx mem)
    · intro work memWork
      have same := backupFile_sameBut f job.param
        (jobWorld source job host checkTime copyTime repoRead repoWrite salt) s.store
      rw [List.append_assoc, List.mem_append, List.mem_append, List.mem_singleton] at memWork
      have old : ∀ work ∈ s.done ++ s.handled, Worked f source option manifest
          (backupFile f job.param
            (jobWorld source job host checkTime copyTime repoRead repoWrite salt) s.store).2 work :=
        fun work inOld => (inv.worked work inOld).frame isJob (inv.running_apart unique mem inOld) same
      rcases memWork with memDone | rfl | memHandled
      · exact old work (List.mem_append_left _ memDone)
      · refine ⟨isJob, ?_⟩
        intro result ok
        exact backupFile_outcome (Prod.ext ok rfl)
      · exact old work (List.mem_append_right _ memHandled)

theorem manifestFileUpdate_entries {current next : Manifest} {name : Str} {update : FileUpdate}
    (found : manifestFileFindDefault current name = some file)
    (run : manifestFileUpdate current name update = .ok next) :
    manifestFileFindDefault next name = some (fileUpdate update file) ∧
      next.fileList.map (·.name) = current.fileList.map (·.name) ∧
      ∀ other, other ≠ name →
        manifestFileFindDefault next other = manifestFileFindDefault current other := by
  rw [manifestFileUpdate, found] at run
  cases run
  have finds := @find_updateFirst name (fileUpdate update) (fun _ => rfl)
  refine ⟨?_, @names_updateFirst name (fileUpdate update) (fun _ => rfl) current.fileList, ?_⟩
  · rw [manifestFileFindDefault, finds, if_pos rfl, ← manifestFileFindDefault, found]
    rfl
  · intro other differ
    rw [manifestFileFindDefault, finds, if_neg differ, ← manifestFileFindDefault]

/-- Reading a result: the entries of other files stay and that of its own file changes as the
result says. -/
theorem backupJobResult_spec {current current' : Manifest} {fileRemove fileRemove' : List Str}
    {sizeCopied sizeCopied' : Nat} (key : work.job.key = work.job.file.name)
    (found : manifestFileFindDefault current work.job.file.name = some work.job.file)
    (run : backupJobResult current fileRemove work.job.key work.result sizeCopied =
      .ok (current', fileRemove', sizeCopied')) :
    ReadBy current' fileRemove' work ∧ (∀ name ∈ fileRemove, name ∈ fileRemove') ∧
      current'.fileList.map (·.name) = current.fileList.map (·.name) ∧
      ∀ name, name ≠ work.job.file.name →
        manifestFileFindDefault current' name = manifestFileFindDefault current name := by
  unfold backupJobResult at run
  rw [key, found] at run
  split at run
  · exact absurd run (by simp)
  · rename_i result ok
    have copied : ∀ next, manifestFileUpdate current work.job.file.name
        (copyUpdate work.job.file result) = .ok next → _ := fun next => manifestFileUpdate_entries found
    simp only at run
    unfold ReadBy
    split at run
    · rename_i is
      cases run
      exact ⟨⟨result, ok, by rw [is]; exact found⟩, fun _ mem => mem, rfl, fun _ _ => rfl⟩
    · rename_i is
      cases run
      exact ⟨⟨result, ok, by rw [is]; exact found⟩, fun _ mem => mem, rfl, fun _ _ => rfl⟩
    · rename_i is
      cases run
      refine ⟨⟨result, ok, ?_⟩, fun _ mem => List.mem_append_left _ mem, rfl, fun _ _ => rfl⟩
      rw [is]
      exact List.mem_append_right _ (List.mem_singleton_self _)
    · rename_i is
      split at run
      · exact absurd run (by simp)
      · rename_i next update
        cases run
        obtain ⟨entry, names, others⟩ := copied _ update
        exact ⟨⟨result, ok, by rw [is]; exact entry⟩, fun _ mem => mem, names, others⟩
    · rename_i is
      split at run
      · exact absurd run (by simp)
      · rename_i next update
        cases run
        obtain ⟨entry, names, others⟩ := copied _ update
        exact ⟨⟨result, ok, by rw [is]; exact entry⟩, fun _ mem => mem, names, others⟩

theorem inv_result (inv : Inv f source option manifest s) (unique : UniqueNames manifest)
    {idx : Nat} (run : step f source s (.result idx) = .ok s') :
    Inv f source option manifest s' := by
  rw [step] at run
  split at run
  · cases run
    exact inv
  · rename_i work at_
    split at run
    · exact absurd run (by simp)
    · rename_i current fileRemove sizeCopied read
      cases run
      have mem : work ∈ s.done := List.mem_of_getElem? at_
      obtain ⟨inside, atIdx⟩ := List.getElem?_eq_some_iff.mp at_
      have isJob := (inv.worked work (List.mem_append_left _ mem)).1
      have key : work.job.key = work.job.file.name := by
        rw [isJob]
        rfl
      have inFiles : work.job.file ∈ s.files := by
        simp only [State.files, List.mem_append, List.mem_map]
        exact .inr (.inr (.inl ⟨work, mem, rfl⟩))
      have found := inv.untouched work.job.file (inv.mem inFiles)
        (fun other memOther => inv.done_apart unique mem memOther)
      obtain ⟨readBy, grows, names, others⟩ := backupJobResult_spec key found read
      refine { inv with files := ?_, names := names.trans inv.names, worked := ?_, untouched := ?_, read := ?_ }
      · refine List.Perm.trans ?_ inv.files
        have taken := (List.getElem_cons_eraseIdx_perm inside).map (·.job.file)
        rw [atIdx, List.map_cons] at taken
        simp only [State.files, List.map_append, List.map_cons, List.map_nil]
        apply List.Perm.append_left
        apply List.Perm.append_left
        refine List.Perm.trans ?_ (taken.append_right _)
        rw [← List.append_assoc]
        exact (List.perm_append_singleton _ _)
      · intro other memOther
        apply inv.worked
        rw [List.mem_append, List.mem_append, List.mem_singleton] at memOther
        rcases memOther with memOther | memOther | rfl
        · exact List.mem_append_left _ (List.mem_of_mem_eraseIdx memOther)
        · exact List.mem_append_right _ memOther
        · exact List.mem_append_left _ mem
      · intro file memFile apart
        have differ : file.name ≠ work.job.file.name :=
          (apart work (List.mem_append_right _ (List.mem_singleton_self _))).symm
        rw [others _ differ]
        exact inv.untouched file memFile
          (fun other memOther => apart other (List.mem_append_left _ memOther))
      · intro other memOther
        rcases List.mem_append.mp memOther with memOther | memOther
        · have differ := inv.done_apart unique mem memOther
          obtain ⟨result, ok, entry⟩ := inv.read other memOther
          refine ⟨result, ok, ?_⟩
          rw [others _ differ]
          split at entry
          · exact entry
          · exact entry
          · exact grows _ entry
          · exact entry
          · exact entry
        · obtain rfl := List.mem_singleton.mp memOther
          exact readBy

theorem inv_step (inv : Inv f source option manifest s) (unique : UniqueNames manifest)
    {event : Event} (run : step f source s event = .ok s') : Inv f source option manifest s' := by
  cases event with
  | request clientIdx => exact inv_request inv run
  | work idx checkTime copyTime repoRead repoWrite salt => exact inv_work inv unique run
  | result idx => exact inv_result inv unique run

theorem inv_start {sizeTotal : Nat} {queueList : List (List ManifestFile)}
    (unique : UniqueNames manifest)
    (built : backupProcessQueue option.queue manifest = .ok (sizeTotal, queueList)) :
    Inv f source option manifest
      { manifest := manifest, store := store, jobData := jobDataNew option manifest queueList } := by
  have filled := backupProcessQueue_spec built
  constructor
  case enough =>
    have length := filled.length
    rw [queueTargetList, List.length_cons] at length
    change queueOffset option.queue.backupStandby < queueList.length
    omega
  case jobData => rfl
  case files =>
    simp only [State.files, List.map_nil, List.append_nil]
    exact filled.perm
  case names => rfl
  case running => simp
  case worked => simp
  case untouched => exact fun file mem _ => find_name_of_mem unique mem
  case read => simp

/-- The invariant holds in the last state of every run. -/
theorem inv_run {sizeTotal : Nat} {queueList : List (List ManifestFile)}
    (unique : UniqueNames manifest)
    (built : backupProcessQueue option.queue manifest = .ok (sizeTotal, queueList))
    {events : List Event}
    (ran : events.foldlM (step f source)
      { manifest := manifest, store := store, jobData := jobDataNew option manifest queueList } =
        .ok s) : Inv f source option manifest s :=
  Effects.except_foldlM_ok (fun _ _ _ _ inv run => inv_step inv unique run)
    (inv_start unique built) ran

/-! ## What a backup stores -/

def Stored (f : Filters) (option : ProcessOption) (backupLabel : Str) (store : Store)
    (file : ManifestFile) : Prop :=
  ∃ stored content, store (repoPathFile backupLabel file.name option.compressType) = some stored ∧
    repoDecode f option.compressType (if option.cipherSubPass.isNone then .none else .aes256Cbc)
      option.cipherSubPass stored = .ok content ∧
    content.length = file.size ∧ f.hash content = file.checksumSha1

def SourceMatched (f : Filters) (source : Source) (s : State) (file : ManifestFile) : Prop :=
  ∃ work ∈ s.handled, work.job.file = file ∧ ∃ content,
    pgRead work.job.param (source work.host work.checkTime ((manifestPathPg file.name).getD [])) =
      .ok (some content) ∧
    content.length = file.size ∧ f.hash content = file.checksumSha1

/-- The job for a file found it missing whenever it read it. -/
def SourceMissing (source : Source) (s : State) (file : ManifestFile) : Prop :=
  ∀ work ∈ s.handled, work.job.file.name = file.name →
    source work.host work.checkTime ((manifestPathPg file.name).getD []) = .ok none ∧
    source work.host work.copyTime ((manifestPathPg file.name).getD []) = .ok none

/-- The stored copy was checked and the source was not. -/
def CopyVerified (option : ProcessOption) (s : State) (file : ManifestFile) : Prop :=
  option.queue.delta = false ∧ ∃ work ∈ s.handled, work.job.file = file ∧
    ∃ result, work.result = .ok result ∧ result.backupCopyResult = .checksum

/-- What is known of an entry that is left. -/
inductive Accounted (f : Filters) (source : Source) (option : ProcessOption) (manifest : Manifest)
    (s : State) (file : ManifestFile) : Prop
  | unread (was : file ∈ manifest.fileList) (skip : fileSkip option.queue file = true)
  | matched (was : file ∈ manifest.fileList) (reference : file.reference.isSome = true)
      (source : SourceMatched f source s file)
  | verified (was : file ∈ manifest.fileList)
      (reference : option.queue.delta = true → file.reference = none)
      (source : option.queue.delta = true → SourceMatched f source s file)
      (copy : option.queue.delta = false → CopyVerified option s file)
      (stored : Stored f option manifest.data.backupLabel s.store file)
  | copied (reference : file.reference = none) (present : ¬ SourceMissing source s file)
      (stored : Stored f option manifest.data.backupLabel s.store file)

theorem fileMatch_backupJob {jobData : BackupJobData} {content : Bytes}
    (same : fileMatch f (backupJob jobData file).param content = true) :
    content.length = file.size ∧ f.hash content = file.checksumSha1 := by
  obtain ⟨size, hash⟩ := fileMatch_iff.mp same
  refine ⟨size.symm, ?_⟩
  simp only [backupJob] at hash
  split at hash
  · exact absurd hash (by simp)
  · exact (Option.some.inj hash).symm

section Jobs
variable (isJob : work.job = backupJob (jobDataNew option manifest []) work.job.file)
include isJob

theorem sourceMatched_of_pgMatched
    (mem : work ∈ s.handled) (matched : PgMatched f work.job.param (work.world source)) :
    SourceMatched f source s work.job.file := by
  obtain ⟨content, read, same⟩ := matched
  rw [isJob] at same
  refine ⟨work, mem, rfl, content, ?_, fileMatch_backupJob same⟩
  have path : work.job.param.pgFile = manifestPathPg work.job.file.name := by
    rw [isJob]
    rfl
  rwa [Work.world, jobWorld, path] at read

theorem stored_of_repoMatched (matched : RepoMatched f work.job.param s.store) :
    Stored f option manifest.data.backupLabel s.store work.job.file := by
  obtain ⟨stored, content, there, decoded, same⟩ := matched
  rw [isJob] at there decoded same
  exact ⟨stored, content, there, decoded, fileMatch_backupJob same⟩

theorem not_sourceMissing
    (mem : work ∈ s.handled) (named : work.job.file.name = file.name) {content : Bytes}
    (read : pgRead work.job.param (work.world source).copy = .ok (some content) ∨
      pgRead work.job.param (work.world source).check = .ok (some content)) :
    ¬ SourceMissing source s file := by
  intro missing
  obtain ⟨check, copy⟩ := missing work mem named
  have path : work.job.param.pgFile = manifestPathPg file.name := by
    rw [isJob, ← named]
    rfl
  rw [← path] at check copy
  rcases read with read | read
  · rw [Work.world, jobWorld, copy] at read
    exact pgRead_missing read
  · rw [Work.world, jobWorld, check] at read
    exact pgRead_missing read

end Jobs

theorem accounted (lossless : Lossless f) (unique : UniqueNames manifest)
    (inv : Inv f source option manifest s) (isOver : Over s) {manifest' : Manifest}
    (removed : removeFiles s = .ok manifest') (left : file ∈ manifest'.fileList) :
    Accounted f source option manifest s file := by
  have unique' : UniqueNames s.manifest := by
    unfold UniqueNames
    rw [inv.names]
    exact unique
  obtain ⟨current, notRemoved⟩ := mem_removed unique' removed left
  have found : manifestFileFindDefault s.manifest file.name = some file :=
    find_name_of_mem unique' current
  -- the entry the backup started with
  obtain ⟨start, memStart, sameName⟩ : ∃ start ∈ manifest.fileList, start.name = file.name := by
    have named : file.name ∈ s.manifest.fileList.map (·.name) := List.mem_map_of_mem current
    rw [inv.names] at named
    exact List.mem_map.mp named
  cases skip : fileSkip option.queue start with
  | true =>
    -- no job was for it
    have apart : ∀ work ∈ s.handled, work.job.file.name ≠ start.name := by
      intro work mem named
      have inFiles : work.job.file ∈ s.files := by
        simp only [State.files, List.mem_append, List.mem_map]
        exact .inr (.inr (.inr ⟨work, mem, rfl⟩))
      obtain ⟨inManifest, queued⟩ := List.mem_filter.mp (inv.files.mem_iff.mp inFiles)
      have same : work.job.file = start := by
        have one := find_name_of_mem unique inManifest
        rw [named, find_name_of_mem unique memStart] at one
        exact (Option.some.inj one).symm
      rw [same, skip] at queued
      exact absurd queued (by decide)
    have kept := inv.untouched start memStart apart
    rw [sameName] at kept
    obtain rfl : file = start := Option.some.inj (found.symm.trans kept)
    exact .unread memStart skip
  | false =>
    -- exactly one job was for it
    have queued : start ∈ queuedFiles option.queue manifest :=
      List.mem_filter.mpr ⟨memStart, by rw [skip]; rfl⟩
    have inFiles := inv.files.mem_iff.mpr queued
    obtain ⟨queues, running, done⟩ := isOver
    rw [State.files, queues, running, done] at inFiles
    obtain ⟨work, mem, isFile⟩ := List.mem_map.mp (by simpa using inFiles)
    have named : work.job.file.name = file.name := by rw [isFile, sameName]
    obtain ⟨isJob, outcome⟩ := inv.worked work (List.mem_append_right _ mem)
    obtain ⟨result, ok, entry⟩ := inv.read work mem
    specialize outcome result ok
    cases outcome with
    | noOp is delta reference matched =>
      rw [is, named, found] at entry
      obtain rfl : file = work.job.file := Option.some.inj entry
      refine .matched (isFile ▸ memStart) ?_ (sourceMatched_of_pgMatched isJob mem matched)
      rw [isJob] at reference
      exact reference
    | checksum is reference matched stored =>
      rw [is, named, found] at entry
      obtain rfl : file = work.job.file := Option.some.inj entry
      have sameDelta : work.job.param.delta = option.queue.delta := by
        rw [isJob]
        rfl
      have sameReference : work.job.param.repoFileHasReference = work.job.file.reference.isSome := by
        rw [isJob]
        rfl
      rw [sameDelta, sameReference] at reference
      rw [sameDelta] at matched
      refine .verified (isFile ▸ memStart) ?_ ?_ ?_ (stored_of_repoMatched isJob stored)
      · intro delta
        simpa using reference delta
      · intro delta
        exact sourceMatched_of_pgMatched isJob mem (matched delta)
      · intro delta
        exact ⟨delta, work, mem, rfl, result, ok, is⟩
    | skip is =>
      rw [is, named] at entry
      exact absurd entry notRemoved
    | copy content is read size hash stored =>
      have updated : manifestFileFindDefault s.manifest work.job.file.name =
          some (fileUpdate (copyUpdate work.job.file result) work.job.file) := by
        rcases is with is | is
        · rwa [is] at entry
        · rwa [is] at entry
      rw [named, found] at updated
      cases updated
      refine .copied rfl (not_sourceMissing isJob mem rfl (.inl read)) ?_
      have decoded := @repoDecode_repoEncode f work.job.param lossless (work.world source).salt content
      generalize repoEncode f work.job.param (work.world source).salt content = bytes at stored decoded
      rw [isJob] at stored decoded
      refine ⟨bytes, content, stored, decoded, size.symm, ?_⟩
      simp only [fileUpdate, copyUpdate, hash, Option.getD_some]

end Run

/-! ## References -/

def PriorEntries (manifestPrior manifest : Manifest) : Prop :=
  ∀ name file reference, manifestFileFindDefault manifest name = some file →
    file.reference = some reference → ∃ filePrior,
      manifestFileFindDefault manifestPrior name = some filePrior ∧
      file.size = filePrior.size ∧ file.checksumSha1 = filePrior.checksumSha1 ∧
      reference = filePrior.reference.getD manifestPrior.data.backupLabel

theorem buildIncrFile_priorEntries {manifestPrior this next : Manifest} {delta : Bool} {fileIdx : Nat}
    (entries : PriorEntries manifestPrior this)
    (run : buildIncrFile manifestPrior delta this fileIdx = .ok next) :
    PriorEntries manifestPrior next := by
  obtain ⟨file, -, run⟩ := Effects.except_bind_ok run
  split at run
  · cases run
    exact entries
  · rename_i filePrior foundPrior
    split at run
    · rename_i usable
      cases found : manifestFileFindDefault this file.name with
      | none =>
        rw [manifestFileUpdate, found] at run
        exact absurd run (by simp)
      | some first =>
        obtain ⟨updated, -, others⟩ := manifestFileUpdate_entries found run
        intro name entry reference foundEntry isReference
        by_cases same : name = file.name
        · subst same
          rw [updated] at foundEntry
          cases foundEntry
          cases isReference
          have size : file.size = filePrior.size := by
            simp only [filePriorUsable, Bool.and_eq_true, decide_eq_true_eq] at usable
            exact usable.1
          exact ⟨filePrior, foundPrior, size, rfl, rfl⟩
        · rw [others name same] at foundEntry
          exact entries name entry reference foundEntry isReference
    · cases run
      exact entries

/-- The references `manifestBuildIncr` makes are of this kind. -/
theorem manifestBuildIncr_priorEntries {this manifestPrior manifest : Manifest} {type : BackupType}
    {archiveStart : Option Str} (fresh : ∀ file ∈ this.fileList, file.reference = none)
    (run : manifestBuildIncr this manifestPrior type archiveStart = .ok manifest) :
    PriorEntries manifestPrior manifest := by
  obtain ⟨data, -, run⟩ := Effects.except_bind_ok run
  obtain ⟨delta, -, run⟩ := Effects.except_bind_ok run
  refine Effects.except_foldlM_ok
    (fun _ _ _ _ entries step => buildIncrFile_priorEntries entries step) ?_ run
  intro name file reference found isReference
  rw [fresh file (List.mem_of_find?_eq_some found)] at isReference
  exact absurd isReference (by simp)

theorem PriorEntries.resumed {resumeData : BackupResume.BackupResumeData}
    {manifestPrior manifest manifest' : Manifest} {storage storage' : BackupResume.ResumeStorage}
    (entries : PriorEntries manifestPrior manifest)
    (cleaned : BackupResume.Cleaned resumeData manifest manifest' storage storage') :
    PriorEntries manifestPrior manifest' := by
  intro name file reference found isReference
  by_cases resumed : ∃ rest, BackupResume.BackupFile resumeData storage' rest ∧
      BackupResume.fileName (strLstJoin rest ['/']) = name
  · -- the entry of a resumed file has no reference
    obtain ⟨rest, isLeft, rfl⟩ := resumed
    obtain ⟨-, -, -, fileNew, -, foundNew, -, none, -⟩ := (cleaned.files rest).mp isLeft
    obtain ⟨before, fileResume, foundBefore, -, foundAfter⟩ := cleaned.gained rest isLeft
    rw [foundAfter] at found
    cases found
    rw [foundNew] at foundBefore
    cases foundBefore
    exact absurd (isReference.symm.trans none) (by simp)
  · rw [cleaned.same name (fun rest isLeft named => resumed ⟨rest, isLeft, named⟩)] at found
    exact entries name file reference found isReference

/-! ## A whole backup -/

/-- Every entry that is left describes what is stored: the file of this backup when it has no
reference, and the prior entry when it has one. With delta a file with a reference that is
not empty was found unchanged. A file that was missing when its job read it is left only when
the stored copy was checked instead. -/
theorem backupProcess_entries {f : Filters} {source : Source} {option : ProcessOption}
    {manifest manifest' manifestPrior : Manifest} {store : Store} {s : State} (lossless : Lossless f)
    (unique : UniqueNames manifest) (prior : PriorEntries manifestPrior manifest)
    (processed : Processed f source option manifest store manifest' s)
    {file : ManifestFile} (left : file ∈ manifest'.fileList) :
    (file.reference = none → Stored f option manifest.data.backupLabel s.store file) ∧
    (∀ reference, file.reference = some reference →
      (∃ filePrior, manifestFileFindDefault manifestPrior file.name = some filePrior ∧
        file.size = filePrior.size ∧ file.checksumSha1 = filePrior.checksumSha1 ∧
        reference = filePrior.reference.getD manifestPrior.data.backupLabel) ∧
      (option.queue.delta = true → file.size ≠ 0 → SourceMatched f source s file)) ∧
    (SourceMissing source s file →
      fileSkip option.queue file = true ∨ CopyVerified option s file) := by
  obtain ⟨sizeTotal, queueList, events, built, ran, isOver, removed⟩ := processed
  have inv := inv_run unique built ran
  have priorOf : ∀ reference, file ∈ manifest.fileList → file.reference = some reference → _ :=
    fun reference was => prior file.name file reference (find_name_of_mem unique was)
  have present : SourceMatched f source s file → ¬ SourceMissing source s file := by
    rintro ⟨work, mem, rfl, content, read, -⟩ missing
    rw [(missing work mem rfl).1] at read
    exact pgRead_missing read
  cases accounted lossless unique inv isOver removed left with
  | unread was skip =>
    have unreadOnly := skip
    simp only [fileSkip, Bool.and_eq_true, Bool.or_eq_true, Bool.not_eq_true', decide_eq_true_eq]
      at unreadOnly
    obtain ⟨isSome, notRead⟩ := unreadOnly
    refine ⟨fun none => ?_, fun reference is => ⟨priorOf reference was is, fun delta size => ?_⟩,
      fun _ => .inl skip⟩
    · rw [none] at isSome
      exact absurd isSome (by decide)
    · rcases notRead with off | zero
      · rw [off] at delta
        exact absurd delta (by decide)
      · exact absurd zero size
  | matched was isSome source =>
    refine ⟨fun none => ?_, fun reference is => ⟨priorOf reference was is, fun _ _ => source⟩,
      fun missing => absurd missing (present source)⟩
    rw [none] at isSome
    exact absurd isSome (by decide)
  | verified was noReference source copy stored =>
    refine ⟨fun _ => stored, fun reference is => ⟨priorOf reference was is, fun delta _ => source delta⟩,
      fun missing => ?_⟩
    cases delta : option.queue.delta with
    | false => exact .inr (copy delta)
    | true => exact absurd missing (present (source delta))
  | copied none there stored =>
    refine ⟨fun _ => stored, fun reference is => ?_, fun missing => absurd missing there⟩
    rw [none] at is
    exact absurd is (by simp)

section Example

/-- A stand-in for the filters: the checksums of a file with one letter and of no bytes. -/
def exampleFilters : Filters where
  hash content :=
    if content = [0x61] then "86f7e437faa5a7fce15d1ddcb9eaeaea377667b8".toList
    else "da39a3ee5e6b4b0d3255bfef95601890afd80709".toList
  compress _ _ content := content
  decompress _ stored := .ok stored
  encrypt _ _ _ content := content
  decrypt _ _ stored := .ok stored
  pageChecksum _ _ _ := ⟨true, true, []⟩
  featureCompress := false
  infoSize := List.length

def exampleControl : ManifestFile := { name := pgControlName, size := 1 }

def exampleVersion : ManifestFile where
  name := "pg_data/PG_VERSION".toList
  size := 3
  checksumSha1 := "feee44ad365b6b1ec75c5621a0ad067371102854".toList
  reference := some "20210101-000000F".toList

def examplePrior : Manifest where
  data := { backupLabel := "20210101-000000F".toList }
  fileList := [{ exampleVersion with reference := none }]

def exampleManifest : Manifest where
  data := { backupLabel := "20210101-000000F_20210102-000000I".toList }
  fileList := [exampleControl, exampleVersion]

def exampleOption : ProcessOption where
  queue := ⟨false, false, true⟩
  compressType := .none
  compressLevel := 0
  cipherSubPass := none
  lsnStart := 0

/-- Only the control file is there. -/
def exampleSource : Source := fun _ _ path =>
  if path = "global/pg_control".toList then .ok (some [0x61]) else .ok none

theorem backupProcessQueue_example :
    backupProcessQueue exampleOption.queue exampleManifest = .ok (1, [[exampleControl]]) := by
  have filled : exampleManifest.fileList.foldlM
      (queueFileAdd exampleOption.queue (queueTargetList exampleManifest)) { queueList := [[]] } =
      .ok { queueList := [[exampleControl]], result := 1, fileTotal := 1,
            pgControlFound := true } := rfl
  have same : List.replicate ((queueTargetList exampleManifest).length +
      queueOffset exampleOption.queue.backupStandby) [] = ([[]] : List (List ManifestFile)) := rfl
  rw [backupProcessQueue, same, filled]
  simp [queueSort]

theorem priorEntries_example : PriorEntries examplePrior exampleManifest := by
  intro name file reference found isReference
  have mem := List.mem_of_find?_eq_some found
  have named : file.name = name := by simpa using List.find?_some found
  rcases List.mem_cons.mp mem with rfl | mem
  · exact absurd isReference (by simp [exampleControl])
  · obtain rfl := List.mem_singleton.mp mem
    subst named
    cases isReference
    exact ⟨_, rfl, rfl, rfl, rfl⟩

theorem backupProcess_entries_example :
    ∃ manifest' s, Processed exampleFilters exampleSource exampleOption exampleManifest
        (fun _ => none) manifest' s ∧ manifest'.fileList.length = 2 ∧
      ∀ file ∈ manifest'.fileList, file.reference = none →
        Stored exampleFilters exampleOption exampleManifest.data.backupLabel s.store file := by
  have processed : Processed exampleFilters exampleSource exampleOption exampleManifest
      (fun _ => none) _ _ := .intro 1 _ [.request 0, .work 0 0 0 none none 0, .result 0]
    backupProcessQueue_example rfl ⟨rfl, rfl, rfl⟩ rfl
  have unique : UniqueNames exampleManifest := by
    unfold UniqueNames
    decide
  refine ⟨_, _, processed, rfl, ?_⟩
  intro file left
  exact (backupProcess_entries ⟨fun _ _ _ => rfl, fun _ _ _ _ => rfl⟩ unique
    priorEntries_example processed left).1

/-- A file of the prior backup that is gone from the source is left when delta is off, and
nothing of it was checked. -/
theorem backupProcess_unread_left :
    ∃ manifest' s, Processed exampleFilters exampleSource exampleOption exampleManifest
        (fun _ => none) manifest' s ∧
      exampleVersion ∈ manifest'.fileList ∧
      (∀ host time, exampleSource host time ((manifestPathPg exampleVersion.name).getD []) = .ok none) ∧
      ∀ work ∈ s.handled, work.job.file.name ≠ exampleVersion.name := by
  refine ⟨_, _, .intro 1 _ [.request 0, .work 0 0 0 none none 0, .result 0]
    backupProcessQueue_example rfl ⟨rfl, rfl, rfl⟩ rfl, ?_, ?_, ?_⟩
  · exact List.mem_cons_of_mem _ List.mem_cons_self
  · exact fun _ _ => rfl
  · intro work mem
    obtain rfl := List.mem_singleton.mp mem
    decide

end Example

end BackupProcess
