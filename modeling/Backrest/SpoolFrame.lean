import Backrest.ArchiveAsync

/-!
# Which queue a command may change

`archive-get` works on the queue `in` and `archive-push` on the queue `out`, in
every interleaving of their parts, with one exception: `archiveAsyncErrorClear`
removes the error files of `out` for either of them. A turn leaves the queue of
its own command exactly when it is such a removal and the file is there.
-/

namespace SpoolFrame

open Text FileTree Interleave ArchiveAsync

section Queue
variable {queue : Str}

/-- The operation is on the queue, or not on the spool at all. -/
def OnQueue (queue : Str) : HostOp → Prop
  | .pathCreate q => q = queue
  | .list q => q = queue
  | .fileExists q _ => q = queue
  | .get q _ => q = queue
  | .remove q _ => q = queue
  | .put q _ _ => q = queue
  | .move q _ _ => q = queue
  | .moveOut q _ => q = queue
  | .pgList _ => True

/-- Nothing but the queue was changed. -/
def Within (queue : Str) (before after : Host) : Prop :=
  after.pg = before.pg ∧
    ∀ path, ¬ [queue] <+: path → after.spool.node path = before.spool.node path

theorem Within.refl (host : Host) : Within queue host host := ⟨rfl, fun _ _ => rfl⟩

theorem ne_of_apart {path : List Str} {file : Str} (h : ¬ [queue] <+: path) :
    path ≠ [queue] ∧ path ≠ [queue, file] := by
  constructor
  · rintro rfl
    exact h List.prefix_rfl
  · rintro rfl
    exact h ⟨[file], rfl⟩

/-- An operation on a queue changes nothing else. -/
theorem handle_within {op : HostOp} (h : OnQueue queue op) (host : Host) :
    Within queue host (handle op host).2 := by
  cases op with
  | pathCreate q =>
    obtain rfl : q = queue := h
    refine ⟨rfl, fun path apart => ?_⟩
    change (host.spool.mkdir [q]).node path = _
    rw [node_mkdir, if_neg (fun both => (@ne_of_apart q path [] apart).1 both.1)]
  | list q => exact Within.refl host
  | fileExists q file => exact Within.refl host
  | get q file => exact Within.refl host
  | remove q file =>
    obtain rfl : q = queue := h
    rw [handle]
    split
    · exact ⟨rfl, fun path apart => node_remove_of_ne (ne_of_apart apart).2⟩
    · exact Within.refl host
    · exact Within.refl host
  | put q file content =>
    obtain rfl : q = queue := h
    rw [handle]
    split
    · exact Within.refl host
    · refine ⟨rfl, fun path apart => ?_⟩
      obtain ⟨notQueue, notFile⟩ := @ne_of_apart q path file apart
      change ((host.spool.mkdir [q]).put [q, file] content).node path = _
      rw [node_put, if_neg notFile, node_mkdir, if_neg (fun both => notQueue both.1)]
  | move q file fileNew =>
    obtain rfl : q = queue := h
    rw [handle]
    split
    · split
      · exact Within.refl host
      · rename_i content _ _
        refine ⟨rfl, fun path apart => ?_⟩
        change ((host.spool.remove [q, file]).put [q, fileNew] content).node path = _
        rw [node_put, if_neg (ne_of_apart apart).2, node_remove_of_ne (ne_of_apart apart).2]
    · exact Within.refl host
  | moveOut q file =>
    obtain rfl : q = queue := h
    rw [handle]
    dsimp only
    split
    · exact ⟨rfl, fun path apart => node_remove_of_ne (ne_of_apart apart).2⟩
    · exact Within.refl host
  | pgList path => exact Within.refl host

end Queue

section Programs
variable {P : HostOp → Prop}

theorem only_storagePathCreate {queue : Str} (h : P (.pathCreate queue)) :
    Only P (storagePathCreate queue) := by
  refine Only.bind (Only.ask h) (fun created => ?_)
  split
  · exact Only.pure _
  · exact Only.throw _

theorem only_storageList {queue : Str} (h : P (.list queue)) : Only P (storageList queue) := by
  refine Only.bind (Only.ask h) (fun names => ?_)
  cases names with
  | some names => exact Only.pure _
  | none => exact Only.throw _

theorem only_storageGet {queue file : Str} (h : P (.get queue file)) :
    Only P (storageGet queue file) := by
  refine Only.bind (Only.ask h) (fun content => ?_)
  cases content with
  | some content => exact Only.pure _
  | none => exact Only.throw _

theorem only_storageRemove {queue file : Str} {errorOnMissing : Bool} (h : P (.remove queue file)) :
    Only P (storageRemove queue file errorOnMissing) := by
  refine Only.bind (Only.ask h) (fun found => ?_)
  cases found with
  | removed => exact Only.pure _
  | isPath => exact Only.throw _
  | missing =>
    cases errorOnMissing with
    | true => exact Only.throw _
    | false => exact Only.pure _

theorem only_storagePut {queue file content : Str} (h : P (.put queue file content)) :
    Only P (storagePut queue file content) := by
  refine Only.bind (Only.ask h) (fun put => ?_)
  split
  · exact Only.pure _
  · exact Only.throw _

theorem only_storageMove {queue file fileNew : Str} (h : P (.move queue file fileNew)) :
    Only P (storageMove queue file fileNew) := by
  refine Only.bind (Only.ask h) (fun moved => ?_)
  split
  · exact Only.pure _
  · exact Only.throw _

theorem only_storageMoveOut {queue file : Str} (h : P (.moveOut queue file)) :
    Only P (storageMoveOut queue file) := by
  refine Only.bind (Only.ask h) (fun moved => ?_)
  split
  · exact Only.pure _
  · exact Only.throw _

theorem only_liftStatus {α : Type} (r : Except Failure α) : Only P (liftStatus r) := by
  cases r with
  | ok a => exact Only.pure a
  | error e => exact Only.throw e

variable {mode : ArchiveMode} (own : ∀ op, OnQueue (archiveAsyncSpoolQueue mode) op → P op)
include own

theorem only_statusErrorFile (walSegment : Str) :
    Only P (statusErrorFile (archiveAsyncSpoolQueue mode) walSegment) := by
  refine Only.bind (Only.ask (own _ rfl)) (fun fileError => ?_)
  split
  · exact Only.pure _
  · refine Only.bind (Only.ask (own _ rfl)) (fun globalError => ?_)
    split
    · exact Only.pure _
    · exact Only.pure _

theorem only_archiveAsyncStatus (walSegment : Str) (throwOnError warnOnOk : Bool) :
    Only P (archiveAsyncStatus mode walSegment throwOnError warnOnOk) := by
  refine Only.bind (Only.ask (own _ rfl)) (fun okFileExists => ?_)
  split
  · refine Only.bind (only_storageGet (own _ rfl)) (fun content => ?_)
    refine Only.bind (only_liftStatus _) (fun content => ?_)
    split
    · exact Only.pure _
    · split
      · split
        · exact Only.pure _
        · exact Only.pure _
      · exact Only.pure _
  · refine Only.bind (only_statusErrorFile own walSegment) (fun errorFile => ?_)
    cases errorFile with
    | none => exact Only.pure _
    | some errorFile =>
      refine Only.bind (only_storageGet (own _ rfl)) (fun content => ?_)
      refine Only.bind (only_liftStatus _) (fun content => ?_)
      split
      · split
        · exact Only.throw _
        · exact Only.throw _
      · exact Only.pure _

theorem only_statusErrorWrite (walSegment : Option Str) (code : Int) (message : Str) :
    Only P (archiveAsyncStatusErrorWrite mode walSegment code message) :=
  only_storagePut (own _ rfl)

theorem only_statusOkWrite (walSegment : Str) (warning : Option Str) :
    Only P (archiveAsyncStatusOkWrite mode walSegment warning) :=
  only_storagePut (own _ rfl)

end Programs

section Commands
variable {P : HostOp → Prop}

theorem only_errorClear {archiveMode : ArchiveMode} {archiveFile : Str}
    (h : ∀ file, P (.remove storageSpoolArchiveOut file)) :
    Only P (archiveAsyncErrorClear archiveMode archiveFile) :=
  Only.bind (only_storageRemove (h _)) (fun _ => only_storageRemove (h _))

section Push
variable (own : ∀ op, OnQueue storageSpoolArchiveOut op → P op)
include own

theorem only_archivePushProcessList
    (walPath : List Str) : Only P (archivePushProcessList walPath) := by
  refine Only.bind (only_storagePathCreate (own _ rfl)) (fun _ => ?_)
  refine Only.bind (only_storageList (own _ rfl)) (fun names => ?_)
  refine Only.bind (Only.foldlM (fun okList statusFile _ => ?_) []) (fun okList => ?_)
  · rw [okListAdd]
    split
    · exact Only.pure _
    · exact Only.bind (only_storageRemove (own _ rfl)) (fun _ => Only.pure _)
  · refine Only.bind ?_ (fun readyList => ?_)
    · refine Only.bind (Only.ask (own _ trivial)) (fun names => ?_)
      cases names with
      | some names => exact Only.pure _
      | none => exact Only.throw _
    · refine Only.bind (Only.foldlM (fun _ file _ => ?_) PUnit.unit) (fun _ => Only.pure _)
      exact only_storageRemove (own _ rfl)

theorem only_cmdArchivePushLoop
    (archiveFile : Str) (rounds : List Bool) (forked throwOnError : Bool) :
    Only P (cmdArchivePushLoop archiveFile rounds forked throwOnError) := by
  induction rounds generalizing forked throwOnError with
  | nil => exact Only.throw _
  | cons lockAcquire rounds ih =>
    rw [cmdArchivePushLoop]
    refine Only.bind (@only_archiveAsyncStatus P .push own archiveFile throwOnError true)
      (fun status => ?_)
    split
    split
    · exact Only.pure _
    · split
      · exact Only.bind (only_errorClear (fun file => own _ rfl)) (fun _ => ih true true)
      · exact ih forked true

theorem only_cmdArchivePushAsync (param : PushAsync) : Only P (cmdArchivePushAsync param) := by
  refine Only.tryCatch ?_ (fun e => Only.bind (@only_statusErrorWrite P .push own none _ _)
    (fun _ => Only.throw e))
  refine Only.bind (only_liftStatus _) (fun _ => ?_)
  refine Only.bind (only_archivePushProcessList own _) (fun walFileList => ?_)
  split
  · exact Only.throw _
  · rw [pushFiles]
    split
    · exact Only.foldlM (fun _ walFile _ => @only_statusOkWrite P .push own walFile _) PUnit.unit
    · refine Only.bind (only_liftStatus _) (fun _ => Only.foldlM (fun _ result _ => ?_) PUnit.unit)
      obtain ⟨walFile, e | warnList⟩ := result
      · exact @only_statusErrorWrite P .push own _ _ _
      · exact @only_statusOkWrite P .push own _ _
end Push

section Get
variable (own : ∀ op, OnQueue storageSpoolArchiveIn op → P op)
include own

theorem only_keepQueueAdd (idealQueue actualQueue keepQueue : List Str) (file : Str) :
    Only P (keepQueueAdd idealQueue actualQueue keepQueue file) := by
  rw [keepQueueAdd]
  split
  · exact Only.pure _
  · split
    · exact Only.bind (only_storageRemove (own _ rfl)) (fun _ => Only.pure _)
    · exact Only.pure _

theorem only_queueNeed (walSegment : Str)
    (found : Bool) (queueSize walSegmentSize pgVersion : Nat) :
    Only P (queueNeed walSegment found queueSize walSegmentSize pgVersion) := by
  refine Only.bind (only_storageList (own _ rfl)) (fun names => ?_)
  exact Only.bind (Only.foldlM (fun _ _ _ => only_keepQueueAdd own _ _ _ _) [])
    (fun _ => Only.pure _)

theorem only_archiveGetMove (param : GetForeground) (round : GetRound) (found : Bool) :
    Only P (archiveGetMove param round found) := by
  rw [archiveGetMove]
  split
  · exact Only.bind (only_storageMoveOut (own _ rfl))
      (fun _ => Only.bind (only_storageList (own _ rfl)) (fun _ => Only.pure _))
  · exact Only.pure _

theorem only_okFileRemove (walSegment : Str) (ok : Bool) : Only P (okFileRemove walSegment ok) := by
  rw [okFileRemove]
  split
  · exact only_storageRemove (own _ rfl)
  · exact Only.pure _

theorem only_cmdArchiveGetLoop
    (clear : ∀ file, P (.remove storageSpoolArchiveOut file)) (param : GetForeground)
    (rounds : List GetRound) (first forked : Bool) :
    Only P (cmdArchiveGetLoop param rounds first forked) := by
  induction rounds generalizing first forked with
  | nil => exact Only.throw _
  | cons round rounds ih =>
    rw [cmdArchiveGetLoop]
    refine Only.bind (Only.ask (own _ rfl)) (fun found => ?_)
    refine Only.bind (@only_archiveAsyncStatus P .get own _ _ _) (fun status => ?_)
    obtain ⟨ok, warning⟩ := status
    refine Only.bind (only_okFileRemove own _ ok) (fun _ => ?_)
    split
    · exact Only.pure _
    · refine Only.bind (only_archiveGetMove own param round found) (fun queueFull => ?_)
      split
      · refine Only.bind (only_storagePathCreate (own _ rfl)) (fun _ => ?_)
        refine Only.bind (only_queueNeed own _ _ _ _ _) (fun _ => ?_)
        refine Only.bind (only_errorClear clear) (fun _ => ?_)
        split
        · exact Only.pure _
        · exact ih false true
      · split
        · exact Only.pure _
        · exact ih false forked

theorem only_getResult
    (result : Str × List Str × Except Failure (List Str)) : Only P (getResult result) := by
  obtain ⟨walSegment, warnList, e | fileWarnList⟩ := result
  · exact @only_statusErrorWrite P .get own _ _ _
  · refine Only.bind ?_ (fun _ => only_storageMove (own _ rfl))
    rw [okWarningWrite]
    split
    · exact @only_statusOkWrite P .get own _ _
    · exact Only.pure _

theorem only_cmdArchiveGetAsync (param : GetAsync) : Only P (cmdArchiveGetAsync param) := by
  refine Only.tryCatch ?_ (fun e => Only.bind (@only_statusErrorWrite P .get own none _ _)
    (fun _ => Only.throw e))
  refine Only.bind (only_liftStatus _) (fun _ => ?_)
  refine Only.bind (Only.foldlM (fun _ result _ => only_getResult own result) PUnit.unit)
    (fun _ => ?_)
  rw [getMissing]
  split
  · exact @only_statusErrorWrite P .get own _ _ _
  · split
    · exact @only_statusOkWrite P .get own _ _
    · exact Only.pure _

end Get

end Commands

section Interleaving

/-- The commands that work on one spool. -/
inductive ArchiveProcess where
  | getForeground (param : GetForeground) (rounds : List GetRound)
  | getAsync (param : GetAsync)
  | getFile (walSegment content : Str)
  | pushForeground (archiveFile : Str) (rounds : List Bool)
  | pushAsync (param : PushAsync)

def ArchiveProcess.start : ArchiveProcess → Process ArchiveMode Failure Answer
  | .getForeground param rounds => ⟨.get, cmdArchiveGetLoop param rounds true false⟩
  | .getAsync param => ⟨.get, cmdArchiveGetAsync param⟩
  | .getFile walSegment content => ⟨.get, archiveGetFile walSegment content⟩
  | .pushForeground archiveFile rounds => ⟨.push, cmdArchivePushLoop archiveFile rounds false false⟩
  | .pushAsync param => ⟨.push, cmdArchivePushAsync param⟩

/-- The operations of a command of the given mode. -/
def Allowed : ArchiveMode → HostOp → Prop
  | .get, op => OnQueue storageSpoolArchiveIn op ∨ ∃ file, op = .remove storageSpoolArchiveOut file
  | .push, op => OnQueue storageSpoolArchiveOut op

theorem start_only (process : ArchiveProcess) :
    Only (Allowed process.start.mode) process.start.prog := by
  cases process with
  | getForeground param rounds =>
    exact only_cmdArchiveGetLoop (fun _ h => Or.inl h) (fun file => Or.inr ⟨file, rfl⟩) _ _ _ _
  | getAsync param => exact only_cmdArchiveGetAsync (fun _ h => Or.inl h) param
  | getFile walSegment content => exact only_storagePut (Or.inl rfl)
  | pushForeground archiveFile rounds => exact only_cmdArchivePushLoop (fun _ h => h) _ _ _ _
  | pushAsync param => exact only_cmdArchivePushAsync (fun _ h => h) param

/-- The turn changed nothing but the queue of its own command. -/
def OwnQueue (e : Event ArchiveMode HostOp Host) : Prop :=
  Within (archiveAsyncSpoolQueue e.mode) e.before e.after

/-- A turn of `archive-get` that removes a file which is there from the queue of `archive-push`. -/
def ClearsOther (e : Event ArchiveMode HostOp Host) : Prop :=
  e.mode = .get ∧ ∃ file, e.op = .remove storageSpoolArchiveOut file ∧
    (e.before.spool.read [storageSpoolArchiveOut, file]).isSome

theorem handle_remove {queue file : Str} {host : Host} :
    (handle (.remove queue file) host).2 =
      if (host.spool.read [queue, file]).isSome then
        { host with spool := host.spool.remove [queue, file] }
      else host := by
  rw [handle, Tree.read]
  cases hn : host.spool.node [queue, file] with
  | none => rfl
  | some n => cases n <;> rfl

theorem ownQueue_iff {e : Event ArchiveMode HostOp Host} (allowed : Allowed e.mode e.op)
    (step : e.after = (handle e.op e.before).2) : OwnQueue e ↔ ¬ ClearsOther e := by
  obtain ⟨mode, op, before, after⟩ := e
  dsimp only at allowed step
  subst step
  constructor
  · rintro ⟨-, same⟩ ⟨rfl, file, rfl, there⟩
    have kept := same [storageSpoolArchiveOut, file] (by
      change ¬ [storageSpoolArchiveIn] <+: [storageSpoolArchiveOut, file]
      rw [List.cons_prefix_cons]
      rintro ⟨equal, -⟩
      revert equal
      decide)
    dsimp only at kept there
    rw [handle_remove, if_pos there] at kept
    change (before.spool.remove _).node _ = _ at kept
    rw [node_remove, if_pos rfl] at kept
    rw [Tree.read, ← kept] at there
    cases there
  · intro other
    cases mode with
    | push => exact handle_within allowed before
    | get =>
      rcases allowed with own | ⟨file, rfl⟩
      · exact handle_within own before
      · have absent : (before.spool.read [storageSpoolArchiveOut, file]).isSome = false := by
          by_contra there
          exact other ⟨rfl, file, rfl, Bool.eq_true_of_not_eq_false there⟩
        rw [OwnQueue]
        dsimp only
        rw [handle_remove, absent]
        exact Within.refl before

end Interleaving

section Clear

def errorFiles (archiveMode : ArchiveMode) (archiveFile : Str) : List (List Str) :=
  [[archiveAsyncSpoolQueue archiveMode, archiveFile ++ statusExtError],
    [archiveAsyncSpoolQueue archiveMode, statusFileGlobalError]]

def ClearsOwn (archiveMode : ArchiveMode) (archiveFile : Str) (host : Host) : Prop :=
  ((archiveAsyncErrorClear archiveMode archiveFile).run handle host).1 = .ok ⟨⟩ ∧
    ∀ path, ((archiveAsyncErrorClear archiveMode archiveFile).run handle host).2.spool.node path =
      if path ∈ errorFiles archiveMode archiveFile then none else host.spool.node path

def FilesOnly (host : Host) : Prop := ∀ queue file, host.spool.node [queue, file] ≠ some .dir

theorem run_storageRemove {queue file : Str} {host : Host} (files : FilesOnly host) :
    ∃ host', (storageRemove queue file false).run handle host = (.ok ⟨⟩, host') ∧
      FilesOnly host' ∧
      ∀ path, host'.spool.node path =
        if path = [queue, file] then none else host.spool.node path := by
  cases hn : host.spool.node [queue, file] with
  | none =>
    refine ⟨host, ?_, files, fun path => ?_⟩
    · rw [storageRemove, run_bind_of_ok (run_ask_op (.remove queue file) host), handle, hn]
      rfl
    by_cases h : path = [queue, file]
    · rw [if_pos h, h, hn]
    · rw [if_neg h]
  | some n =>
    cases n with
    | dir => exact absurd hn (files queue file)
    | file content =>
      refine ⟨_, run_storageRemove_file hn false, fun q f => ?_, fun path => node_remove⟩
      change (host.spool.remove _).node _ ≠ _
      rw [node_remove]
      split
      · intro isDir
        cases isDir
      · exact files q f

/-- Whatever the mode, the error files of `archive-push` are removed. -/
theorem run_errorClear (archiveMode : ArchiveMode) (archiveFile : Str) {host : Host}
    (files : FilesOnly host) :
    ((archiveAsyncErrorClear archiveMode archiveFile).run handle host).1 = .ok ⟨⟩ ∧
    ∀ path, ((archiveAsyncErrorClear archiveMode archiveFile).run handle host).2.spool.node path =
      if path ∈ errorFiles .push archiveFile then none else host.spool.node path := by
  obtain ⟨host₁, first, files₁, nodes₁⟩ :=
    @run_storageRemove storageSpoolArchiveOut (archiveFile ++ statusExtError) host files
  obtain ⟨host₂, second, -, nodes₂⟩ :=
    @run_storageRemove storageSpoolArchiveOut statusFileGlobalError host₁ files₁
  rw [archiveAsyncErrorClear, run_bind_of_ok first, second]
  refine ⟨rfl, fun path => ?_⟩
  dsimp only
  rw [nodes₂, nodes₁]
  change _ = if path ∈ [[storageSpoolArchiveOut, archiveFile ++ statusExtError],
    [storageSpoolArchiveOut, statusFileGlobalError]] then none else _
  by_cases one : path = [storageSpoolArchiveOut, archiveFile ++ statusExtError]
  · simp [one]
  · by_cases two : path = [storageSpoolArchiveOut, statusFileGlobalError]
    · simp [two]
    · simp [one, two]

theorem errorFiles_disjoint {archiveFile : Str} {path : List Str}
    (h : path ∈ errorFiles .get archiveFile) : path ∉ errorFiles .push archiveFile := by
  have apart : storageSpoolArchiveIn ≠ storageSpoolArchiveOut := by decide
  intro other
  have first : path.head? = some storageSpoolArchiveIn := by
    rcases List.mem_cons.mp h with rfl | h
    · rfl
    · rcases List.mem_singleton.mp h with rfl
      rfl
  have second : path.head? = some storageSpoolArchiveOut := by
    rcases List.mem_cons.mp other with rfl | other
    · rfl
    · rcases List.mem_singleton.mp other with rfl
      rfl
  exact apart (Option.some.inj (first.symm.trans second))

theorem clearsOwn_iff {archiveMode : ArchiveMode} {archiveFile : Str} {host : Host}
    (files : FilesOnly host) :
    ClearsOwn archiveMode archiveFile host ↔ archiveMode = .push ∨
      ∀ path ∈ errorFiles .get archiveFile ++ errorFiles .push archiveFile,
        host.spool.node path = none := by
  obtain ⟨succeeds, nodes⟩ := run_errorClear archiveMode archiveFile files
  constructor
  · rintro ⟨-, own⟩
    cases archiveMode with
    | push => exact Or.inl rfl
    | get =>
      right
      intro path hp
      have both := (nodes path).symm.trans (own path)
      rcases List.mem_append.mp hp with inQueue | outQueue
      · rw [if_neg (errorFiles_disjoint inQueue), if_pos inQueue] at both
        exact both
      · rw [if_pos outQueue, if_neg (fun h => errorFiles_disjoint h outQueue)] at both
        exact both.symm
  · rintro (rfl | absent)
    · exact ⟨succeeds, nodes⟩
    · refine ⟨succeeds, fun path => ?_⟩
      rw [nodes path]
      have none_of {mode : ArchiveMode} (h : path ∈ errorFiles mode archiveFile) :
          host.spool.node path = none := by
        cases mode with
        | get => exact absent path (List.mem_append_left _ h)
        | push => exact absent path (List.mem_append_right _ h)
      by_cases out : path ∈ errorFiles .push archiveFile
      · rw [if_pos out, none_of out, ite_self]
      · rw [if_neg out]
        split
        · rename_i own
          exact none_of own
        · rfl

end Clear

/-- In every interleaving a turn stays in the queue of its command unless it clears an error of the
other one, and clearing removes just the errors of its own mode for `archive-push`, or when neither
queue has any. -/
theorem queues_apart_iff (archiveMode : ArchiveMode) (archiveFile : Str) (host : Host) :
    (∀ (processes : List ArchiveProcess) (host' : Host) (events : List (Event ArchiveMode HostOp Host))
      (left : List (Process ArchiveMode Failure Answer)),
      Turns handle host (processes.map ArchiveProcess.start) events host' left →
        ∀ e ∈ events, OwnQueue e ↔ ¬ ClearsOther e) ∧
    (FilesOnly host →
      (ClearsOwn archiveMode archiveFile host ↔ archiveMode = .push ∨
        ∀ path ∈ errorFiles .get archiveFile ++ errorFiles .push archiveFile,
          host.spool.node path = none)) := by
  constructor
  · intro processes host' events left run e he
    have only : ∀ p ∈ processes.map ArchiveProcess.start, Only (Allowed p.mode) p.prog := by
      intro p hp
      obtain ⟨process, -, rfl⟩ := List.mem_map.mp hp
      exact start_only process
    obtain ⟨allowed, step⟩ := run.only only e he
    exact ownQueue_iff allowed step
  · intro files
    exact clearsOwn_iff files

/-- A segment that `archive-push` could not push. -/
def pushErrorHost (archiveFile : Str) : Host where
  spool := ⟨[([storageSpoolArchiveIn], .dir), ([storageSpoolArchiveOut], .dir),
    ([storageSpoolArchiveOut, archiveFile ++ statusExtError], .file "104\nfailed".toList)]⟩
  pg := ⟨[]⟩

theorem pushErrorHost_files (archiveFile : Str) : FilesOnly (pushErrorHost archiveFile) := by
  intro queue file
  rw [FileTree.Tree.node, pushErrorHost]
  simp only [List.lookup_cons, List.lookup_nil]
  split
  · rename_i same
    simp at same
  · split
    · rename_i same
      simp at same
    · split
      · intro isDir
        cases isDir
      · intro isDir
        cases isDir

/-- `archive-push` clears its own error. -/
theorem queues_apart_push :
    FilesOnly (pushErrorHost "000000010000000100000001".toList) ∧
      ClearsOwn .push "000000010000000100000001".toList
        (pushErrorHost "000000010000000100000001".toList) :=
  ⟨pushErrorHost_files _,
    ((queues_apart_iff .push _ _).2 (pushErrorHost_files _)).mpr (Or.inl rfl)⟩

/-- The first round of `archive-get` for the same segment removes the error that `archive-push` is
waiting for. -/
theorem archiveGet_clears_push_error :
    ∃ (events : List (Event ArchiveMode HostOp Host)) (host' : Host)
      (left : List (Process ArchiveMode Failure Answer)),
      Turns handle (pushErrorHost "000000010000000100000001".toList)
        ([ArchiveProcess.getForeground
          ⟨"000000010000000100000001".toList, 134217728, 16777216, 110000⟩
          [⟨true, 0⟩]].map ArchiveProcess.start) events host' left ∧
      ∃ e ∈ events, e.mode = .get ∧
        e.before.spool.read [storageSpoolArchiveOut, "000000010000000100000001.error".toList] =
          some "104\nfailed".toList ∧
        e.after.spool.read [storageSpoolArchiveOut, "000000010000000100000001.error".toList] =
          none := by
  obtain ⟨host', left, run⟩ := @turns_trace _ _ Failure _ _ handle ArchiveMode.get
    (cmdArchiveGetLoop ⟨"000000010000000100000001".toList, 134217728, 16777216, 110000⟩
      [⟨true, 0⟩] true false) (pushErrorHost "000000010000000100000001".toList)
  exact ⟨_, host', left, run, by decide +kernel⟩

end SpoolFrame
