import Backrest.VerifyFile

/-!
# What a dispatch keeps

A worker that asks for a job makes verify pass over files and backups until a
file needs a check. The state in progress says what is known of every backup in
the result list, and each loop of the source keeps it.
-/

namespace VerifyRun

open Text BackupCommon BackupManifest BackupInfo FileTree Repository Verify

section Loop
variable {storage : Storage} {manifestOf : Str → Option Manifest} {outcome : Outcome} {jobs : List Job}
  {checked : List FileCheck} {jobData : VerifyJobData}

/-- The labels of the result list and then those still to come. -/
def labels (jobData : VerifyJobData) : List Str :=
  jobData.backupResultList.map (·.backupLabel) ++
    if jobData.manifest.isSome then jobData.backupList.tail else jobData.backupList

def Known (manifestOf : Str → Option Manifest) (jobData : VerifyJobData) (job : Job) : Prop :=
  (∃ file, job = archiveJob file) ∨
    ∃ result ∈ jobData.backupResultList, (manifestOf result.backupLabel).isSome ∧
      ∃ name file, job = fileJob result.backupLabel name file

/-- The files of the last result are being passed. -/
structure Busy (manifestOf : Str → Option Manifest) (jobData : VerifyJobData) (manifest : Manifest)
    (done : List VerifyBackupResult) (result : VerifyBackupResult) : Prop where
  results : jobData.backupResultList = done ++ [result]
  loaded : jobData.manifest = some manifest
  first : jobData.backupList.head? = some result.backupLabel
  usable : manifestOf result.backupLabel = some manifest
  index : result.totalFileVerify = jobData.manifestFileIdx
  bound : jobData.manifestFileIdx ≤ manifest.fileList.length
  notComplete : result.fileVerifyComplete = false
  ended : ∀ prior ∈ done, Ended manifestOf prior

/-- No backup is being passed. -/
def Idle (manifestOf : Str → Option Manifest) (jobData : VerifyJobData) : Prop :=
  jobData.manifest = none ∧ ∀ result ∈ jobData.backupResultList, Ended manifestOf result

structure Progress (storage : Storage) (manifestOf : Str → Option Manifest) (outcome : Outcome) (jobs : List Job)
    (checked : List FileCheck) (jobData : VerifyJobData) : Prop where
  source : ∀ label, manifestOf label = (verifyManifestFile storage jobData.pgHistory label
    (jobData.currentBackup = some label)).1
  plain : ∀ label ∈ labels jobData, '/' ∉ label
  once : (labels jobData).Nodup
  known : ∀ job ∈ jobs, Known manifestOf jobData job
  tracked : ∀ result ∈ jobData.backupResultList, Tracked manifestOf outcome jobs checked result
  current : Idle manifestOf jobData ∨ ∃ manifest done result, Busy manifestOf jobData manifest done result

variable {next : VerifyJobData} {result after added : VerifyBackupResult}
  {done : List VerifyBackupResult} {manifest : Manifest} {job : Option Job} {label : Str}
  {rest : List Str} {file : ManifestFile}

theorem Progress.plainResult (progress : Progress storage manifestOf outcome jobs checked jobData)
    (h : result ∈ jobData.backupResultList) :
    '/' ∉ result.backupLabel :=
  progress.plain _ (List.mem_append_left _ (List.mem_map_of_mem h))

/-- The last result is replaced while a backup is being passed. -/
theorem setLast_concat (done : List VerifyBackupResult) (result result' : VerifyBackupResult) :
    setLast (done ++ [result]) result' = done ++ [result'] := by
  rw [setLast, List.dropLast_concat]

theorem labels_setLast (results : jobData.backupResultList = done ++ [result])
    (label : after.backupLabel = result.backupLabel) :
    (done ++ [after]).map (·.backupLabel) = jobData.backupResultList.map (·.backupLabel) := by
  rw [results, List.map_append, List.map_append, List.map_singleton, List.map_singleton, label]

theorem Known.of_labels {job : Job} (known : Known manifestOf jobData job)
    (kept : ∀ label ∈ jobData.backupResultList.map (·.backupLabel),
      label ∈ next.backupResultList.map (·.backupLabel)) : Known manifestOf next job := by
  rcases known with archive | ⟨result, mem, usable, name, file, same⟩
  · exact Or.inl archive
  · obtain ⟨result', mem', label⟩ := List.mem_map.mp (kept _ (List.mem_map_of_mem mem))
    exact Or.inr ⟨result', mem', label ▸ usable, name, file, label ▸ same⟩

theorem tracked_next {counted : VerifyBackupResult} {more : List Job}
    (tracked : Tracked manifestOf outcome jobs checked result)
    (usable : manifestOf result.backupLabel = some manifest)
    (next : manifest.fileList[result.totalFileVerify]? = some file)
    (count : counted = { result with totalFileVerify := result.totalFileVerify + 1 })
    (grows : Grows counted after) (open_ : after.fileVerifyComplete = false)
    (passed : Passed outcome (jobs ++ more) checked after
      (storedName result.backupLabel manifest file) file) :
    Tracked manifestOf outcome (jobs ++ more) checked after := by
  subst count
  have same : after.backupLabel = result.backupLabel := grows.label
  have verify : after.totalFileVerify = result.totalFileVerify + 1 := grows.verify
  refine ⟨fun none => ?_, fun m h => ?_, fun complete => ?_, fun m h f mem => ?_⟩
  · rw [same, usable] at none
    cases none
  · rw [same] at h
    exact grows.total.trans (tracked.total m h)
  · rw [open_] at complete
    cases complete
  · rw [same, usable] at h
    cases h
    rw [verify, List.take_add_one, next, List.mem_append, Option.toList_some,
      List.mem_singleton] at mem
    rw [same]
    rcases mem with earlier | rfl
    · have before : Passed outcome (jobs ++ more) checked
          { result with totalFileVerify := result.totalFileVerify + 1 } _ f :=
        (tracked.passed manifest usable f earlier).mono more
      exact before.grows grows
    · exact passed

theorem settled_setLast (settled : Settled outcome jobs (done ++ [result]))
    (open_ : after.fileVerifyComplete = false) :
    Settled outcome jobs (done ++ [after]) := by
  intro job hj prior mem complete same
  rcases List.mem_append.mp mem with mem | mem
  · exact settled job hj prior (List.mem_append_left _ mem) complete same
  · rw [List.mem_singleton.mp mem, open_] at complete
    cases complete

/-- A state that differs from another in the last result, which was passed one file further. -/
theorem Progress.step (progress : Progress storage manifestOf outcome jobs checked jobData)
    (busy : Busy manifestOf jobData manifest done result)
    (results : next.backupResultList = done ++ [after])
    (label : after.backupLabel = result.backupLabel)
    (pgHistory : next.pgHistory = jobData.pgHistory)
    (currentBackup : next.currentBackup = jobData.currentBackup)
    (same : labels next = labels jobData)
    (isJob : ∀ j ∈ job, ∃ name file, j = fileJob result.backupLabel name file)
    (tracked : Tracked manifestOf outcome (jobs ++ job.toList) checked after)
    (current : Idle manifestOf next ∨
      ∃ manifest done result, Busy manifestOf next manifest done result) :
    Progress storage manifestOf outcome (jobs ++ job.toList) checked next := by
  have kept : next.backupResultList.map (·.backupLabel) =
      jobData.backupResultList.map (·.backupLabel) := by
    rw [results, labels_setLast busy.results label]
  refine ⟨fun l => ?_, fun l h => progress.plain l (same ▸ h), same ▸ progress.once, ?_, ?_,
    current⟩
  · rw [pgHistory, currentBackup]
    exact progress.source l
  · intro j hj
    rcases List.mem_append.mp hj with old | new
    · exact (progress.known j old).of_labels (fun l h => kept ▸ h)
    · obtain ⟨name, file, rfl⟩ := isJob j (Option.mem_toList.mp new)
      refine Or.inr ⟨after, ?_, ?_, name, file, by rw [label]⟩
      · rw [results]
        exact List.mem_append_right _ List.mem_cons_self
      · rw [label, busy.usable]
        rfl
  · intro r hr
    rw [results] at hr
    rcases List.mem_append.mp hr with old | new
    · refine (progress.tracked r ?_).mono _
      rw [busy.results]
      exact List.mem_append_left _ old
    · rw [List.mem_singleton.mp new]
      exact tracked

theorem verifyNextFile_progress (references : ReferencesStored manifestOf)
    (progress : Progress storage manifestOf outcome jobs checked jobData)
    (settled : Settled outcome jobs jobData.backupResultList)
    (busy : Busy manifestOf jobData manifest done result)
    (here : manifest.fileList[jobData.manifestFileIdx]? = some file)
    (run : verifyNextFile manifest result file jobData = (job, next)) :
    Progress storage manifestOf outcome (jobs ++ job.toList) checked next ∧
      Settled outcome jobs next.backupResultList ∧
      (jobData.manifestFileIdx + 1 = manifest.fileList.length ∧ Idle manifestOf next ∧
          next.backupList = jobData.backupList.tail ∨
        jobData.manifestFileIdx + 1 < manifest.fileList.length ∧
          next.manifestFileIdx = jobData.manifestFileIdx + 1 ∧
          next.backupList = jobData.backupList ∧
          ∃ after, Busy manifestOf next manifest done after) := by
  have inResults : result ∈ jobData.backupResultList := by
    rw [busy.results]
    exact List.mem_append_right _ List.mem_cons_self
  have tracked := progress.tracked result inResults
  have bound : jobData.manifestFileIdx < manifest.fileList.length :=
    (List.getElem?_eq_some_iff.mp here).1
  rw [verifyNextFile] at run
  generalize hc : { result with totalFileVerify := result.totalFileVerify + 1 } = counted at run
  have countedLabel : counted.backupLabel = result.backupLabel := by rw [← hc]
  have countedOpen : counted.fileVerifyComplete = false := by
    rw [← hc]
    exact busy.notComplete
  rw [busy.results] at settled
  have settledCounted := settled_setLast settled countedOpen
  rw [busy.results, setLast_concat] at run
  have priorTracked : ∀ prior ∈ done ++ [counted], prior.fileVerifyComplete = true →
      Tracked manifestOf outcome jobs checked prior := by
    intro prior mem complete
    rcases List.mem_append.mp mem with mem | mem
    · refine progress.tracked prior ?_
      rw [busy.results]
      exact List.mem_append_left _ mem
    · rw [List.mem_singleton.mp mem, countedOpen] at complete
      cases complete
  have priorPlain : ∀ prior ∈ done ++ [counted], '/' ∉ prior.backupLabel := by
    intro prior mem
    rcases List.mem_append.mp mem with mem | mem
    · refine progress.plainResult ?_
      rw [busy.results]
      exact List.mem_append_left _ mem
    · rw [List.mem_singleton.mp mem, countedLabel]
      exact progress.plainResult inResults
  obtain ⟨grows, complete, passed⟩ := verifyBackupFile_spec references priorTracked priorPlain
    settledCounted (countedLabel ▸ busy.usable) (List.mem_of_getElem? here)
  rcases hf : verifyBackupFile (done ++ [counted]) counted manifest file with ⟨fileName, after⟩
  rw [hf] at run grows complete passed
  dsimp only at run grows complete passed
  rw [countedLabel] at passed
  have open_ : after.fileVerifyComplete = false := complete.trans countedOpen
  have trackedAfter := tracked_next tracked busy.usable (busy.index ▸ here) hc.symm grows open_ passed
  have label : after.backupLabel = result.backupLabel := grows.label.trans countedLabel
  have total : after.totalFileManifest = manifest.fileList.length := by
    rw [grows.total, ← hc]
    exact tracked.total manifest busy.usable
  have verify : after.totalFileVerify = jobData.manifestFileIdx + 1 := by
    rw [grows.verify, ← hc, ← busy.index]
  have isJob : ∀ j ∈ fileName.map (fun name => fileJob result.backupLabel name file),
      ∃ name file, j = fileJob result.backupLabel name file := by
    intro j hj
    obtain ⟨name, -, same⟩ := Option.mem_map.mp hj
    exact ⟨name, file, same.symm⟩
  rw [setLast_concat, total] at run
  split at run
  · rename_i last
    cases run
    have idle : Idle manifestOf (removeFirst { jobData with
        backupResultList := done ++ [after], manifestFileIdx := jobData.manifestFileIdx + 1 }) := by
      refine ⟨rfl, fun r hr => ?_⟩
      rcases List.mem_append.mp hr with mem | mem
      · exact busy.ended r mem
      · rw [List.mem_singleton.mp mem]
        intro m h
        rw [label, busy.usable] at h
        cases h
        exact verify.trans last
    refine ⟨progress.step busy rfl label rfl rfl ?_ isJob trackedAfter (Or.inl idle),
      settled_setLast settled open_, Or.inl ⟨last, idle, rfl⟩⟩
    rw [labels, labels, busy.loaded, ← labels_setLast busy.results label]
    rfl
  · rename_i more
    cases run
    have still : Busy manifestOf { jobData with
        backupResultList := done ++ [after], manifestFileIdx := jobData.manifestFileIdx + 1 }
        manifest done after :=
      ⟨rfl, busy.loaded, by rw [label]; exact busy.first, by rw [label]; exact busy.usable, verify,
        bound, open_, busy.ended⟩
    refine ⟨progress.step busy rfl label rfl rfl ?_ isJob trackedAfter (Or.inr ⟨_, _, _, still⟩),
      settled_setLast settled open_, Or.inr ⟨?_, rfl, rfl, after, still⟩⟩
    · rw [labels, labels, ← labels_setLast busy.results label]
    · change jobData.manifestFileIdx + 1 ≠ _ at more
      omega

/-- Between two steps a backup that is being passed has files left. -/
def Open (jobData : VerifyJobData) : Prop :=
  ∀ manifest, jobData.manifest = some manifest →
    jobData.manifestFileIdx < manifest.fileList.length

/-- What a part of a dispatch leaves: a state in progress, and no backup half passed without a job. -/
structure Dispatched (storage : Storage) (manifestOf : Str → Option Manifest) (outcome : Outcome) (jobs : List Job)
    (checked : List FileCheck) (rest : List Str) (job : Option Job) (next : VerifyJobData) : Prop where
  progress : Progress storage manifestOf outcome (jobs ++ job.toList) checked next
  settled : Settled outcome jobs next.backupResultList
  left : Open next
  none : job = none → next.manifest = none ∧ next.backupList = rest

theorem open_of_idle (idle : Idle manifestOf jobData) : Open jobData := by
  intro manifest loaded
  rw [idle.1] at loaded
  cases loaded

theorem getElem?_of_drop {α : Type} {l rest : List α} {n : Nat} {a : α} (h : l.drop n = a :: rest) :
    l[n]? = some a := by
  have first : (l.drop n)[0]? = some a := by
    rw [h]
    rfl
  rwa [List.getElem?_drop, Nat.add_zero] at first

theorem verifyFiles_cons {files : List ManifestFile}
    (results : jobData.backupResultList = done ++ [result]) :
    verifyFiles manifest (file :: files) jobData =
      match verifyNextFile manifest result file jobData with
      | (some job, next) => (some job, next)
      | (none, next) => verifyFiles manifest files next := by
  rcases next : verifyNextFile manifest result file jobData with ⟨job | job, after⟩ <;>
    simp only [verifyFiles, results, List.getLast?_concat, next]

theorem verifyFiles_dispatched (references : ReferencesStored manifestOf)
    {files : List ManifestFile}
    (progress : Progress storage manifestOf outcome jobs checked jobData)
    (settled : Settled outcome jobs jobData.backupResultList)
    (busy : Busy manifestOf jobData manifest done result)
    (left : manifest.fileList.drop jobData.manifestFileIdx = file :: files)
    (run : verifyFiles manifest (file :: files) jobData = (job, next)) :
    Dispatched storage manifestOf outcome jobs checked jobData.backupList.tail job next := by
  induction files generalizing jobData file result with
  | nil =>
    rcases hn : verifyNextFile manifest result file jobData with ⟨first, after⟩
    have here := getElem?_of_drop left
    have length : jobData.manifestFileIdx + 1 = manifest.fileList.length := by
      have := congrArg List.length left
      rw [List.length_drop, List.length_singleton] at this
      omega
    obtain ⟨progress, settled, ⟨-, idle, backupList⟩ | ⟨more, -⟩⟩ :=
      verifyNextFile_progress references progress settled busy here hn
    · rw [verifyFiles_cons busy.results, hn] at run
      cases first with
      | some j =>
        cases run
        exact ⟨progress, settled, open_of_idle idle, fun h => by cases h⟩
      | none =>
        cases run
        exact ⟨progress, settled, open_of_idle idle, fun _ => ⟨idle.1, backupList⟩⟩
    · omega
  | cons f rest ih =>
    rcases hn : verifyNextFile manifest result file jobData with ⟨first, after⟩
    have here := getElem?_of_drop left
    have later : manifest.fileList.drop (jobData.manifestFileIdx + 1) = f :: rest := by
      rw [← List.drop_drop, left]
      rfl
    have length : jobData.manifestFileIdx + 1 < manifest.fileList.length := by
      have := congrArg List.length later
      rw [List.length_drop, List.length_cons] at this
      omega
    obtain ⟨progress, settled, ⟨last, -⟩ | ⟨-, index, backupList, result', busy'⟩⟩ :=
      verifyNextFile_progress references progress settled busy here hn
    · omega
    · rw [verifyFiles_cons busy.results, hn] at run
      cases first with
      | some j =>
        cases run
        refine ⟨progress, settled, fun m loaded => ?_, fun h => by cases h⟩
        rw [busy'.loaded] at loaded
        cases loaded
        rw [index]
        exact length
      | none =>
        rw [Option.toList_none, List.append_nil] at progress
        rw [← backupList]
        exact ih progress settled busy' (by rw [index]; exact later) run

theorem grows_noFiles (result : VerifyBackupResult) :
    Grows result { result with status := .backupInvalid } :=
  ⟨rfl, rfl, rfl, fun _ => VerifyBackupResultStatus.noConfusion, fun _ => rfl, fun _ => id⟩

theorem verifyBackupManifest_dispatched (references : ReferencesStored manifestOf)
    (progress : Progress storage manifestOf outcome jobs checked jobData)
    (settled : Settled outcome jobs jobData.backupResultList)
    (busy : Busy manifestOf jobData manifest done result)
    (run : verifyBackupManifest jobData = (job, next)) :
    Dispatched storage manifestOf outcome jobs checked jobData.backupList.tail job next := by
  rw [verifyBackupManifest, busy.loaded] at run
  dsimp only at run
  split at run
  · rename_i more
    cases left : manifest.fileList.drop jobData.manifestFileIdx with
    | nil =>
      have := List.drop_eq_nil_iff.mp left
      omega
    | cons file files =>
      rw [left] at run
      exact verifyFiles_dispatched references progress settled busy left run
  · rename_i none
    have inResults : result ∈ jobData.backupResultList := by
      rw [busy.results]
      exact List.mem_append_right _ List.mem_cons_self
    rw [busy.results, List.getLast?_concat] at run
    dsimp only at run
    rw [setLast_concat] at run
    cases run
    have grows := grows_noFiles result
    have old := progress.tracked result inResults
    have tracked : Tracked manifestOf outcome (jobs ++ (Option.none : Option Job).toList) checked
        { result with status := .backupInvalid } := by
      rw [Option.toList_none, List.append_nil]
      exact ⟨fun h => ⟨VerifyBackupResultStatus.noConfusion, (old.unusable h).2⟩, old.total,
        old.complete, fun m h f mem => (old.passed m h f mem).grows grows⟩
    have idle : Idle manifestOf (removeFirst { jobData with
        jobErrorTotal := jobData.jobErrorTotal + 1
        backupResultList := done ++ [{ result with status := .backupInvalid }] }) := by
      refine ⟨rfl, fun r hr => ?_⟩
      rcases List.mem_append.mp hr with mem | mem
      · exact busy.ended r mem
      · rw [List.mem_singleton.mp mem]
        intro m h
        change manifestOf result.backupLabel = some m at h
        rw [busy.usable] at h
        cases h
        change result.totalFileVerify = _
        have bound := busy.bound
        rw [busy.index]
        omega
    rw [busy.results] at settled
    refine ⟨progress.step busy rfl grows.label rfl rfl ?_ ?_ tracked (Or.inl idle),
      settled_setLast settled busy.notComplete, open_of_idle idle, fun _ => ⟨rfl, rfl⟩⟩
    · rw [labels, labels, busy.loaded, ← labels_setLast busy.results grows.label]
      rfl
    · intro j hj
      cases hj

/-- A result is added for the backup in front, of which no file was passed yet. -/
theorem Progress.add (progress : Progress storage manifestOf outcome jobs checked jobData)
    (results : next.backupResultList = jobData.backupResultList ++ [added])
    (pgHistory : next.pgHistory = jobData.pgHistory)
    (currentBackup : next.currentBackup = jobData.currentBackup)
    (same : labels next = labels jobData) (tracked : Tracked manifestOf outcome jobs checked added)
    (current : Idle manifestOf next ∨
      ∃ manifest done result, Busy manifestOf next manifest done result) :
    Progress storage manifestOf outcome jobs checked next := by
  refine ⟨fun l => ?_, fun l h => progress.plain l (same ▸ h), same ▸ progress.once,
    fun j hj => (progress.known j hj).of_labels (fun l h => ?_), fun r hr => ?_, current⟩
  · rw [pgHistory, currentBackup]
    exact progress.source l
  · rw [results, List.map_append]
    exact List.mem_append_left _ h
  · rw [results] at hr
    rcases List.mem_append.mp hr with old | new
    · exact progress.tracked r old
    · rw [List.mem_singleton.mp new]
      exact tracked

/-- A new result has nothing to answer for. -/
theorem tracked_fresh (verify : result.totalFileVerify = 0)
    (open_ : result.fileVerifyComplete = false)
    (unusable : manifestOf result.backupLabel = none → result.status ≠ .backupValid)
    (total : ∀ manifest, manifestOf result.backupLabel = some manifest →
      result.totalFileManifest = manifest.fileList.length) :
    Tracked manifestOf outcome jobs checked result := by
  refine ⟨fun none => ⟨unusable none, open_⟩, total, fun complete => ?_, fun m _ f mem => ?_⟩
  · rw [open_] at complete
    cases complete
  · rw [verify] at mem
    cases mem

theorem settled_add {results : List VerifyBackupResult} (settled : Settled outcome jobs results)
    (open_ : added.fileVerifyComplete = false) :
    Settled outcome jobs (results ++ [added]) := by
  intro job hj prior mem complete same
  rcases List.mem_append.mp mem with mem | mem
  · exact settled job hj prior mem complete same
  · rw [List.mem_singleton.mp mem, open_] at complete
    cases complete

theorem labels_add (idle : Idle manifestOf jobData)
    (backupList : jobData.backupList = label :: rest) (here : added.backupLabel = label)
    (results : next.backupResultList = jobData.backupResultList ++ [added])
    (tail : (if next.manifest.isSome then next.backupList.tail else next.backupList) = rest) :
    labels next = labels jobData := by
  rw [labels, labels, tail, results, idle.1, backupList, List.map_append, List.map_singleton, here,
    List.append_assoc]
  rfl

theorem verifyBackupStart_unusable
    (progress : Progress storage manifestOf outcome jobs checked jobData)
    (settled : Settled outcome jobs jobData.backupResultList) (idle : Idle manifestOf jobData)
    (backupList : jobData.backupList = label :: rest) (unusable : manifestOf label = none)
    (run : verifyBackupStart storage label jobData = next) :
    Progress storage manifestOf outcome jobs checked next ∧
      Settled outcome jobs next.backupResultList ∧ Idle manifestOf next ∧
      next.backupList = rest := by
  have loaded := unusable
  rw [progress.source label] at loaded
  rw [verifyBackupStart] at run
  rcases hm : verifyManifestFile storage jobData.pgHistory label
    (decide (jobData.currentBackup = some label)) with ⟨manifest, status, errors⟩
  have invalid := verifyManifestFile_none loaded
  rw [hm] at run invalid loaded
  change manifest = none at loaded
  subst loaded
  dsimp only at run
  subst run
  have notUsable {m : Manifest} : manifestOf label ≠ some m := by
    rw [unusable]
    exact (Option.some_ne_none m).symm
  have tracked : Tracked manifestOf outcome jobs checked { backupLabel := label, status := status } :=
    tracked_fresh rfl rfl (fun _ => invalid) (fun m h => absurd h notUsable)
  have idleNext : Idle manifestOf (removeFirst { jobData with
      jobErrorTotal := jobData.jobErrorTotal + errors
      backupResultList :=
        jobData.backupResultList ++ [{ backupLabel := label, status := status }] }) := by
    refine ⟨rfl, fun r hr => ?_⟩
    rcases List.mem_append.mp hr with old | new
    · exact idle.2 r old
    · rw [List.mem_singleton.mp new]
      exact fun m h => absurd h notUsable
  have tail : jobData.backupList.tail = rest := by rw [backupList, List.tail_cons]
  exact ⟨progress.add rfl rfl rfl (labels_add idle backupList rfl rfl tail) tracked
    (Or.inl idleNext), settled_add settled rfl, idleNext, tail⟩

theorem verifyBackupStart_usable
    (progress : Progress storage manifestOf outcome jobs checked jobData)
    (settled : Settled outcome jobs jobData.backupResultList) (idle : Idle manifestOf jobData)
    (backupList : jobData.backupList = label :: rest) (usable : manifestOf label = some manifest)
    (run : verifyBackupStart storage label jobData = next) :
    Progress storage manifestOf outcome jobs checked next ∧
      Settled outcome jobs next.backupResultList ∧ next.backupList = jobData.backupList ∧
      ∃ result, Busy manifestOf next manifest jobData.backupResultList result := by
  have loaded := usable
  rw [progress.source label] at loaded
  rw [verifyBackupStart] at run
  rcases hm : verifyManifestFile storage jobData.pgHistory label
    (decide (jobData.currentBackup = some label)) with ⟨found, status, errors⟩
  rw [hm] at run loaded
  change found = some manifest at loaded
  subst loaded
  dsimp only at run
  subst run
  have busy : Busy manifestOf { jobData with
      jobErrorTotal := jobData.jobErrorTotal + errors
      manifest := some manifest
      manifestFileIdx := 0
      backupResultList := jobData.backupResultList ++ [backupResultNew label status manifest] }
      manifest jobData.backupResultList (backupResultNew label status manifest) :=
    ⟨rfl, rfl, congrArg List.head? backupList, usable, rfl, Nat.zero_le _, rfl, idle.2⟩
  refine ⟨progress.add rfl rfl rfl (labels_add idle backupList rfl rfl ?_) ?_
    (Or.inr ⟨_, _, _, busy⟩), settled_add settled rfl, rfl, _, busy⟩
  · exact congrArg List.tail backupList
  · refine tracked_fresh rfl rfl (fun none => ?_) (fun m h => ?_)
    · exact absurd (none.symm.trans usable) (Option.some_ne_none manifest).symm
    · obtain rfl := Option.some.inj (usable.symm.trans h)
      rfl

theorem Idle.not_last (progress : Progress storage manifestOf outcome jobs checked jobData)
    (idle : Idle manifestOf jobData) (list : jobData.backupList = label :: rest) :
    jobData.backupResultList.getLast?.map (·.backupLabel) ≠ some label := by
  intro last
  obtain ⟨result, mem, same⟩ := Option.map_eq_some_iff.mp last
  have once := progress.once
  rw [labels, idle.1, list] at once
  have old : label ∈ jobData.backupResultList.map (·.backupLabel) :=
    same ▸ List.mem_map_of_mem (List.mem_of_getLast? mem)
  exact (List.nodup_append.mp once).2.2 label old label List.mem_cons_self rfl

theorem verifyBackupPass_dispatched (references : ReferencesStored manifestOf)
    (progress : Progress storage manifestOf outcome jobs checked jobData)
    (settled : Settled outcome jobs jobData.backupResultList)
    (list : jobData.backupList = label :: rest) {started : VerifyJobData}
    (start : (if jobData.backupResultList.getLast?.map (·.backupLabel) = some label then jobData
      else verifyBackupStart storage label jobData) = started)
    (run : verifyBackupManifest started = (job, next)) :
    Dispatched storage manifestOf outcome jobs checked rest job next := by
  have tail : jobData.backupList.tail = rest := by rw [list, List.tail_cons]
  rcases progress.current with idle | ⟨manifest, done, result, busy⟩
  · rw [if_neg (idle.not_last progress list)] at start
    cases hm : manifestOf label with
    | none =>
      obtain ⟨progress, settled, idle, backupList⟩ :=
        verifyBackupStart_unusable progress settled idle list hm start
      rw [verifyBackupManifest, idle.1] at run
      cases run
      refine ⟨?_, settled, open_of_idle idle, fun _ => ⟨idle.1, backupList⟩⟩
      rwa [Option.toList_none, List.append_nil]
    | some manifest =>
      obtain ⟨progress, settled, backupList, result, busy⟩ :=
        verifyBackupStart_usable progress settled idle list hm start
      rw [← tail, ← backupList]
      exact verifyBackupManifest_dispatched references progress settled busy run
  · have here : jobData.backupResultList.getLast?.map (·.backupLabel) = some label := by
      have first := busy.first
      rw [list] at first
      rw [busy.results, List.getLast?_concat, Option.map_some]
      exact first.symm
    rw [if_pos here] at start
    subst start
    rw [← tail]
    exact verifyBackupManifest_dispatched references progress settled busy run

theorem verifyBackupLoop_dispatched (references : ReferencesStored manifestOf)
    {backupList : List Str} (progress : Progress storage manifestOf outcome jobs checked jobData)
    (settled : Settled outcome jobs jobData.backupResultList) (left : Open jobData)
    (list : jobData.backupList = backupList)
    (run : verifyBackupLoop storage backupList jobData = (job, next)) :
    Dispatched storage manifestOf outcome jobs checked [] job next := by
  induction backupList generalizing jobData with
  | nil =>
    have idle : Idle manifestOf jobData := by
      rcases progress.current with idle | ⟨manifest, done, result, busy⟩
      · exact idle
      · have first := busy.first
        rw [list] at first
        cases first
    cases run
    refine ⟨?_, settled, left, fun _ => ⟨idle.1, list⟩⟩
    rwa [Option.toList_none, List.append_nil]
  | cons label rest ih =>
    rw [verifyBackupLoop] at run
    generalize hs : (if jobData.backupResultList.getLast?.map (·.backupLabel) = some label
      then jobData else verifyBackupStart storage label jobData) = started at run
    rcases hm : verifyBackupManifest started with ⟨first, after⟩
    have pass := verifyBackupPass_dispatched references progress settled list hs hm
    rw [hm] at run
    cases first with
    | some j =>
      cases run
      exact { pass with none := fun h => by cases h }
    | none =>
      have progress := pass.progress
      rw [Option.toList_none, List.append_nil] at progress
      exact ih progress pass.settled pass.left (pass.none rfl).2 run

end Loop

end VerifyRun
