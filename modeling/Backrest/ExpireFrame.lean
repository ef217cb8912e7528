import Backrest.ExpireCommand

/-!
# What every run of expire keeps

A relation between the states before and after is kept by expire when it is kept
by the few changes that expire is made of: a write to the storage of the
repository, a message, and the two options and flags it sets.
-/

namespace ExpireFrame

open Text BackupCommon BackupManifest BackupInfo FileTree Effects Repository Expire
open ExpireArchive ExpireCommand

variable {R : World → World → Prop} {j : Nat} {α β : Type}

/-- A message that removing from the repository `j` may log. -/
def OfRemoval (j : Nat) : LogEvent → Prop
  | .expire _ _ _ => False
  | .removeBackup i _ | .removeArchivePath i _ | .removeArchive i _ _ _
  | .removeHistoryFile i _ _ | .removeHistoryPath i _ | .removeHistoryManifest i _ => i = j
  | _ => True

/-- A change of storage that adds no entry. -/
def Shrinks (change : Storage → Storage) : Prop :=
  ∀ t p, t.node p = none → (change t).node p = none

theorem shrinks_remove (q : List Str) : Shrinks (·.remove q) := by
  intro t p absent
  rw [node_remove, absent, ite_self]

theorem shrinks_removeTree (q : List Str) : Shrinks (·.removeTree q) := by
  intro t p absent
  rw [node_removeTree, absent, ite_self]

/-- The relation is kept by all that removing changes in the repository `j`. -/
structure RemoveFrame (R : World → World → Prop) (j : Nat) : Prop where
  refl : ∀ w, R w w
  trans : ∀ a b c, R a b → R b c → R a c
  write : ∀ {change}, Shrinks change → Keeps R (storageWrite j change)
  log : ∀ {event}, OfRemoval j event → Keeps R (logEvent event)

/-- The relation is also kept by all that expiring changes. -/
structure Frame (R : World → World → Prop) (j : Nat) : Prop extends RemoveFrame R j where
  save : ∀ change, Keeps R (storageWrite j change)
  expireLog : ∀ kind labels, Keeps R (logEvent (.expire kind j labels))
  set : ∀ value, Keeps R (retentionArchiveSet j value)
  found : Keeps R (modify (fun w => { w with adhocBackupFound := true }) : Command PUnit)

section Rules
variable (frame : RemoveFrame R j)
include frame

theorem RemoveFrame.pure (a : α) : Keeps R (Pure.pure a : Command α) := Keeps.pure frame.refl a

theorem RemoveFrame.throw (e : Error) : Keeps R (throw e : Command α) := Keeps.throw frame.refl e

theorem RemoveFrame.bind {m : Command α} {f : α → Command β} (first : Keeps R m)
    (rest : ∀ a, Keeps R (f a)) : Keeps R (m >>= f) :=
  Keeps.bind frame.trans first rest

theorem RemoveFrame.foldlM {step : β → α → Command β} (items : List α)
    (one : ∀ b, ∀ a ∈ items, Keeps R (step b a)) (b : β) : Keeps R (items.foldlM step b) :=
  Keeps.foldlM frame.refl frame.trans items one b

theorem RemoveFrame.orThrow (e : Except Error α) : Keeps R (orThrow e) := by
  cases e with
  | error e => exact frame.throw e
  | ok a => exact frame.pure a

/-- Reading the state changes nothing. -/
theorem RemoveFrame.read {m : Command α} (h : ∀ w, (exec m w).2 = w) : Keeps R m := by
  intro w
  rw [h w]
  exact frame.refl w

theorem RemoveFrame.logs {m : Command α} {P : LogEvent → Prop} (logs : OnlyLogs P m)
    (kind : ∀ e, P e → OfRemoval j e) : Keeps R m := by
  intro w
  obtain ⟨result, events, run, all⟩ := logs
  rw [run]
  clear run
  induction events generalizing w with
  | nil =>
    rw [List.append_nil]
    exact frame.refl w
  | cons e rest ih =>
    have first := frame.log (kind e (all e List.mem_cons_self)) w
    have later := ih { w with log := w.log ++ [e] } (fun e he => all e (List.mem_cons_of_mem _ he))
    rw [List.append_assoc] at later
    exact frame.trans _ _ _ first later

end Rules

section Remove
variable (frame : RemoveFrame R j)
include frame

theorem infoBackupLoadFileReconstruct_keeps (storage : Storage) :
    Keeps R (infoBackupLoadFileReconstruct storage) := by
  refine frame.logs (infoBackupLoadFileReconstruct_onlyLogs storage) (fun e h => ?_)
  cases e <;> trivial

theorem removeExpiredBackup_keeps (info : InfoBackup) (adhoc : Option Str) :
    Keeps R (removeExpiredBackup info adhoc j) := by
  refine frame.bind (frame.read fun _ => rfl) (fun storage => ?_)
  refine frame.bind (frame.orThrow _) (fun candidates => ?_)
  refine frame.foldlM _ (fun _ label _ => ?_) _
  rw [removeBackupPath]
  split
  · exact frame.bind (frame.log rfl) (fun _ => frame.write (shrinks_removeTree _))
  · exact frame.pure _

theorem logExpire_keeps (archiveId : Str) (archiveExpire : ArchiveExpired) :
    Keeps R (logExpire j archiveId archiveExpire) := by
  rw [logExpire]
  cases archiveExpire.start with
  | none => exact frame.pure _
  | some start => exact frame.bind (frame.log rfl) (fun _ => frame.pure _)

theorem removeWalPath_keeps (archiveId : Str) (ranges : List ArchiveRange) (expireMax : Str)
    (archiveExpire : ArchiveExpired) (walPath : Str) :
    Keeps R (removeWalPath j archiveId ranges expireMax archiveExpire walPath) := by
  rw [removeWalPath]
  split
  · exact frame.bind (frame.write (shrinks_removeTree _)) (fun _ => frame.pure _)
  · split
    · refine frame.bind (frame.read fun _ => rfl)
        (fun storage => frame.foldlM _ (fun expire file _ => ?_) _)
      rw [removeWalFile]
      split
      · exact logExpire_keeps frame _ _
      · exact frame.bind (frame.write (shrinks_remove _)) (fun _ => frame.pure _)
    · exact frame.pure _

theorem removeHistoryFiles_keeps (archiveId timeline : Str) :
    Keeps R (removeHistoryFiles j archiveId timeline) := by
  refine frame.bind (frame.read fun _ => rfl)
    (fun storage => frame.foldlM _ (fun _ file _ => ?_) _)
  rw [removeHistoryFile]
  split
  · exact frame.bind (frame.write (shrinks_remove _)) (fun _ => frame.log rfl)
  · exact frame.pure _

theorem removeWal_keeps (archiveId : Str) (backups : List InfoBackupData)
    (retention : InfoBackupData) (start : Str) :
    Keeps R (removeWal j archiveId backups retention start) := by
  refine frame.bind (frame.foldlM _ (fun _ data _ => ?_) _) (fun _ => ?_)
  · cases archiveRange retention data with
    | none => exact frame.pure _
    | some range => exact frame.log trivial
  · refine frame.bind (frame.read fun _ => rfl) (fun storage => ?_)
    refine frame.bind (frame.foldlM _
      (fun expire walPath _ => removeWalPath_keeps frame _ _ _ expire walPath) _) (fun expire => ?_)
    dsimp only
    split
    · exact frame.bind (frame.log trivial) (fun _ => removeHistoryFiles_keeps frame _ _)
    · exact frame.bind (logExpire_keeps frame _ _) (fun _ => removeHistoryFiles_keeps frame _ _)

theorem removeExpiredArchiveId_keeps (info : InfoBackup) (global : List Str)
    (archiveRetention : Nat) (infoArchivePg : InfoPg) (listArchiveDisk : List Str)
    (archiveId : Str) :
    Keeps R (removeExpiredArchiveId info global archiveRetention infoArchivePg
      listArchiveDisk j archiveId) := by
  rw [removeExpiredArchiveId]
  split
  · split
    · refine frame.bind (frame.orThrow _) (fun currentPg => ?_)
      split
      · exact frame.bind (frame.log rfl) (fun _ => frame.write (shrinks_removeTree _))
      · exact frame.pure _
    · split
      · exact frame.pure _
      · split
        · exact frame.pure _
        · exact removeWal_keeps frame _ _ _ _
  · exact frame.pure _

theorem removeExpiredArchive_keeps (info : InfoBackup) (timeBased : Bool) :
    Keeps R (removeExpiredArchive info timeBased j) := by
  refine frame.bind (frame.read fun _ => rfl) (fun option => ?_)
  dsimp only
  split
  · split
    · exact frame.log trivial
    · exact frame.log trivial
  · split
    · refine frame.bind (frame.read fun _ => rfl) (fun storage => ?_)
      refine frame.bind (frame.orThrow _) (fun infoArchive => ?_)
      refine frame.bind (frame.orThrow _) (fun _ => ?_)
      exact frame.foldlM _ (fun _ id _ => removeExpiredArchiveId_keeps frame _ _ _ _ _ id) _
    · exact frame.pure _

theorem removeHistoryYears_keeps (currentBackupList : List Str) (minLabel : Str)
    (years : List Str) :
    Keeps R (removeHistoryYears j currentBackupList minLabel years) := by
  induction years with
  | nil => exact frame.pure _
  | cons year rest ih =>
    rw [removeHistoryYears]
    split
    · exact frame.bind (frame.log rfl) (fun _ => frame.bind (frame.write (shrinks_removeTree _)) (fun _ => ih))
    · split
      · refine frame.bind (frame.read fun _ => rfl) (fun storage => ?_)
        refine frame.bind (frame.foldlM _ (fun _ file _ => ?_) _) (fun _ => ih)
        rw [removeHistoryManifest]
        split
        · exact frame.bind (frame.log rfl) (fun _ => frame.write (shrinks_remove _))
        · exact frame.pure _
      · exact frame.pure _

theorem removeExpiredHistory_keeps (info : InfoBackup) :
    Keeps R (removeExpiredHistory info j) := by
  refine frame.bind (frame.read fun _ => rfl) (fun option => ?_)
  cases option.retentionHistory with
  | none => exact frame.pure _
  | some days =>
    refine frame.bind (frame.read fun _ => rfl) (fun minLabel => ?_)
    exact frame.bind (frame.read fun _ => rfl) (fun storage => removeHistoryYears_keeps frame _ _ _)

theorem removeExpired_keeps (info : InfoBackup) (option : RepoOption) (adhoc : Option Str) :
    Keeps R (removeExpired info option adhoc j) :=
  frame.bind (removeExpiredBackup_keeps frame info adhoc) (fun _ =>
    frame.bind (removeExpiredArchive_keeps frame info _) (fun _ => removeExpiredHistory_keeps frame info))

end Remove

section Expire
variable (frame : Frame R j)
include frame

theorem expireOne_keeps (info : InfoBackup) (label : Str) :
    Keeps R (expireOne j info label) :=
  frame.bind (frame.write (shrinks_remove _)) (fun _ =>
    frame.bind (frame.write (shrinks_remove _)) (fun _ => frame.pure _))

theorem expireBackup_keeps (info : InfoBackup) (label : Str) :
    Keeps R (expireBackup info label j) :=
  frame.bind (frame.foldlM _ (fun info label _ => expireOne_keeps frame info label) _)
    (fun _ => frame.pure _)

theorem expireLogged_keeps (kind : ExpireKind) (state : InfoBackup × Nat)
    (label : Str) : Keeps R (expireLogged kind j state label) := by
  refine frame.bind (expireBackup_keeps frame state.1 label) (fun result => ?_)
  exact frame.bind (frame.expireLog kind _) (fun _ => frame.pure _)

theorem expireDiffBackup_keeps (info : InfoBackup) :
    Keeps R (expireDiffBackup info j) := by
  refine frame.bind (frame.read fun _ => rfl) (fun option => ?_)
  dsimp only
  split
  · exact frame.foldlM _ (fun state label _ => expireLogged_keeps frame .diff state label) _
  · exact frame.pure _

theorem expireFullBackup_keeps (info : InfoBackup) :
    Keeps R (expireFullBackup info j) := by
  refine frame.bind (frame.read fun _ => rfl) (fun option => ?_)
  dsimp only
  split
  · exact frame.foldlM _ (fun state label _ => expireLogged_keeps frame .full state label) _
  · exact frame.pure _

theorem expireUntilFirst_keeps (keep : Str) (fuel : Nat) (state : InfoBackup × Nat)
    (num : Nat) : Keeps R (expireUntilFirst keep j fuel state num) := by
  induction fuel generalizing state num with
  | zero => exact frame.throw _
  | succ fuel ih =>
    refine frame.bind (frame.orThrow _) (fun first => ?_)
    split
    · exact frame.pure _
    · exact frame.bind (expireLogged_keeps frame .timeBased state _) (fun state => ih state _)

theorem expireTimeBasedBackup_keeps (info : InfoBackup) (minTimestamp : Int) :
    Keeps R (expireTimeBasedBackup info minTimestamp j) := by
  rw [expireTimeBasedBackup]
  dsimp only
  split
  · exact frame.pure _
  · refine frame.bind (expireUntilFirst_keeps frame _ _ _ _) (fun result => ?_)
    refine frame.bind (frame.read fun _ => rfl) (fun option => ?_)
    split
    · exact frame.bind (frame.set _) (fun _ => frame.pure _)
    · exact frame.pure _

omit frame in
theorem exec_retentionFullDefault (w : World) :
    exec retentionFullDefault w =
      ((match (w.config.repo w.config.repoDefault).retentionFull with
        | some value => .ok value
        | none => .error ⟨.assertError,
            "option 'repo-retention-full' is null but non-null was requested".toList⟩), w) := by
  change exec (match (w.config.repo w.config.repoDefault).retentionFull with
    | some value => pure value
    | none => throw _) w = _
  cases (w.config.repo w.config.repoDefault).retentionFull <;> rfl

theorem expireRetention_keeps (info : InfoBackup) (option : RepoOption) :
    Keeps R (expireRetention info option j) := by
  refine frame.bind ?_ (fun state => expireDiffBackup_keeps frame state.1)
  rw [expireFullRetention]
  split
  · split
    · refine frame.bind (frame.read fun w => ?_) (fun days => ?_)
      · rw [exec_retentionFullDefault]
      · exact frame.bind (frame.read fun _ => rfl)
          (fun minTimestamp => expireTimeBasedBackup_keeps frame info minTimestamp)
    · exact frame.pure _
  · exact expireFullBackup_keeps frame info

theorem latestUpdate_keeps (info : InfoBackup) (latest : Str) :
    Keeps R (latestUpdate info latest j) := by
  rw [latestUpdate]
  split
  · refine frame.bind (frame.log trivial) (fun _ => ?_)
    refine frame.bind (frame.read fun _ => rfl) (fun w => ?_)
    refine frame.bind (frame.orThrow _) (fun dryRun => ?_)
    split
    · exact frame.bind (frame.orThrow _) (fun _ => frame.save _)
    · exact frame.pure _
  · exact frame.pure _

theorem expireAdhocBackup_keeps (info : InfoBackup) (label : Str) :
    Keeps R (expireAdhocBackup info label j) := by
  refine frame.bind (frame.orThrow _) (fun _ => ?_)
  refine frame.bind (frame.orThrow _) (fun latest => ?_)
  refine frame.bind (expireBackup_keeps frame info label) (fun result => ?_)
  refine frame.bind (latestUpdate_keeps frame _ _) (fun _ => ?_)
  exact frame.bind (frame.expireLog _ _) (fun _ => frame.pure _)

theorem expireInfo_keeps (info : InfoBackup) (option : RepoOption) (adhoc : Option Str)
    (max : Nat) : Keeps R (expireInfo info option adhoc j max) := by
  cases adhoc with
  | none => exact expireRetention_keeps frame info option
  | some label =>
    refine frame.bind ?_ (fun state => frame.bind ?_ (fun _ => frame.pure _))
    · rw [expireListed]
      split
      · exact frame.bind frame.found (fun _ => expireAdhocBackup_keeps frame info _)
      · exact frame.pure _
    · refine frame.bind (frame.read fun _ => rfl) (fun w => ?_)
      split
      · exact frame.log trivial
      · exact frame.pure _

theorem expireRepo_keeps (adhoc : Option Str) (max : Nat) : Keeps R (expireRepo adhoc max j) := by
  refine frame.bind (frame.read fun _ => rfl) (fun option => ?_)
  refine frame.bind (frame.read fun _ => rfl) (fun storage => ?_)
  refine frame.bind (infoBackupLoadFileReconstruct_keeps frame.toRemoveFrame storage)
    (fun info => ?_)
  refine frame.bind (expireInfo_keeps frame info option adhoc max) (fun state => ?_)
  exact frame.bind (frame.save _) (fun _ =>
    removeExpired_keeps frame.toRemoveFrame state.1 option adhoc)

omit frame in
/-- The run of a repository never fails, and logs its error as one message. -/
theorem exec_expireRepoCatch (adhoc : Option Str) (max total j : Nat) (w : World) :
    ∃ total', exec (expireRepoCatch adhoc max total j) w =
      (.ok total', (match exec (expireRepo adhoc max j) w with
        | (.ok _, w') => w'
        | (.error e, w') => { w' with log := w'.log ++ [.repoError j e] })) := by
  rw [expireRepoCatch, exec_tryCatch, exec_bind]
  rcases exec (expireRepo adhoc max j) w with ⟨e | _, w'⟩
  · exact ⟨total + 1, rfl⟩
  · exact ⟨total, rfl⟩

theorem expireRepoCatch_keeps (adhoc : Option Str) (max total : Nat) :
    Keeps R (expireRepoCatch adhoc max total j) := by
  intro w
  obtain ⟨total', run⟩ := exec_expireRepoCatch adhoc max total j w
  have repo := expireRepo_keeps frame adhoc max w
  rw [run]
  rcases hr : exec (expireRepo adhoc max j) w with ⟨e | u, w'⟩
  · rw [hr] at repo
    exact frame.trans _ _ _ repo ((frame.log trivial : Keeps R (logEvent (.repoError j e))) w')
  · rw [hr] at repo
    exact repo

end Expire

theorem repoRange_nodup (config : Config) : (repoRange config).Nodup := by
  rw [repoRange]
  split
  · exact List.nodup_singleton _
  · exact List.nodup_range

/-- The command ends in the state in which the loop over the repositories ends. -/
theorem cmdExpire_state (w : World) :
    (exec cmdExpire w).2 = match (setCheck w.config : Except Error PUnit.{1}) with
      | .error _ => w
      | .ok _ => (exec ((repoRange w.config).foldlM
          (expireRepoCatch w.config.set ((repoRange w.config).getLast?.getD 0)) 0) w).2 := by
  have final (total : Nat) (v : World) : (exec (orThrow (errorTotalCheck total)) v).2 = v := by
    cases errorTotalCheck total <;> rfl
  rw [cmdExpire, exec_bind_of_ok (exec_get w)]
  cases (setCheck w.config : Except Error PUnit.{1}) with
  | error e => rfl
  | ok _ =>
    have start : exec (orThrow (Except.ok PUnit.unit)) w = (.ok ⟨⟩, w) := rfl
    dsimp only
    rw [exec_bind_of_ok start, exec_bind]
    rcases exec ((repoRange w.config).foldlM
      (expireRepoCatch w.config.set ((repoRange w.config).getLast?.getD 0)) 0) w with ⟨e | total, v⟩
    · rfl
    · exact final total v

/-- The whole command keeps what it keeps in every repository it processes. -/
theorem cmdExpire_keeps (frame : ∀ j, Frame R j) : Keeps R cmdExpire := by
  have base := (frame 0).toRemoveFrame
  refine base.bind (base.read fun _ => rfl) (fun w => ?_)
  refine base.bind (base.orThrow _) (fun _ => ?_)
  refine base.bind (base.foldlM _ (fun total j _ => ?_) _) (fun _ => base.orThrow _)
  exact expireRepoCatch_keeps (frame j) _ _ total

end ExpireFrame
