import Backrest.RestoreControl

/-!
# An aborted restore cannot be started

Each phase of a run keeps what the next one needs. From the removal of the control file
to its rename there is no control file below the data directory, and the file that is
renamed is one that a job of the same run has written.
-/

namespace RestoreRun

open Text BackupManifest FileTree TreeWalk RestoreClean

section Phases

variable {fuel : Nat} {system : System} {option : RunOption} {manifest : Manifest}
  {before fs fs' : FileSystem} {restored : List (List Str)} {name : List Str}

theorem base_names (name : Str) :
    [manifestTargetPgData, name] ≠ controlName ∧ [manifestTargetPgData, name] ≠ tempName := by
  constructor
  · intro same
    simp [controlName] at same
  · intro same
    simp [tempName] at same

section Renames
variable (wf : WellFormed system option.toRestoreOption manifest)
include wf

/-- Files of the data directory itself are not the control file. -/
theorem guarded_base
    (placed : Placed system manifest) (guarded : Guarded system manifest restored fs) (name : Str)
    (run : fileWrite system option.pgPath fs [name] = .ok fs') :
    Guarded system manifest restored fs' := by
  have at_ := @base_at system option manifest wf name
  obtain ⟨notControl, notTemp⟩ := other_place wf placed guarded.linked at_ (base_names name).1
    (base_names name).2
  exact guarded.wrote (fileWrite_wrote run) (fun _ mem => mem) notControl
    (fun isTemp => absurd isTemp notTemp)

theorem guarded_move
    (placed : Placed system manifest) (guarded : Guarded system manifest restored fs)
    (run : manifestMove system option.pgPath fs = .ok fs') : Guarded system manifest restored fs' := by
  have notLink : ∀ leads,
      fs.node (option.pgPath ++ [backupManifestTemp]) ≠ some (.file (.link leads)) := by
    intro leads isLink
    obtain ⟨c, rest, isTarget, nonempty, isName, isPlace⟩ :=
      @base_at system option manifest wf backupManifestTemp
    rw [isPlace] at isLink
    obtain ⟨link, mem, linkName, -⟩ := guarded.linked.link c isTarget rest leads nonempty isLink
    exact placed.saved ⟨link, mem, linkName.trans isName⟩
  have parent : isDir fs (option.pgPath ++ [backupManifestFile]).dropLast = true := by
    obtain ⟨c, isTarget, -, isPath⟩ := wf.base
    rw [List.dropLast_concat, isDir_iff, ← isPath]
    exact .inr (guarded.linked.roots c isTarget)
  obtain ⟨notControl, notTemp⟩ := other_name wf placed
    (@base_at system option manifest wf backupManifestFile) (base_names _).1 (base_names _).2
  exact guarded.wrote (fileMove_wrote notLink parent run) (fun _ mem => mem) notControl
    (fun isTemp => absurd isTemp notTemp)

theorem guarded_remove
    (placed : Placed system manifest) (guarded : Guarded system manifest restored fs)
    (run : fileRemove fs (option.pgPath ++ [backupManifestFile]) = .ok fs') :
    Guarded system manifest restored fs' := by
  obtain ⟨notControl, notTemp⟩ := other_name wf placed
    (@base_at system option manifest wf backupManifestFile) (base_names _).1 (base_names _).2
  exact guarded.wrote (fileRemove_wrote run) (fun _ mem => mem) notControl
    (fun isTemp => absurd isTemp notTemp)

/-- A job writes the control file as a copy, and other files elsewhere. -/
theorem guarded_file
    (placed : Placed system manifest) (guarded : Guarded system manifest restored fs)
    (has : HasFile manifest name)
    (run : fileWrite system option.pgPath fs (restoreFilePgPath name) = .ok fs') :
    Guarded system manifest (name :: restored) fs' := by
  have more : ∀ other ∈ restored, other ∈ name :: restored :=
    fun other mem => List.mem_cons_of_mem _ mem
  have wrote := fileWrite_wrote run
  unfold restoreFilePgPath at run wrote
  by_cases isControl : name = controlName
  · rw [if_pos isControl] at wrote
    have at_ := @global_at system option manifest fs wf placed guarded.linked pgFilePgControlTemp
    obtain ⟨same, notControl⟩ := temp_place wf placed guarded.linked at_
    rw [same] at wrote
    apply guarded.wrote wrote more notControl
    intro _
    rw [isControl]
    exact List.mem_cons_self
  · rw [if_neg isControl] at run wrote
    have at_ := file_at wf placed guarded.linked has run
    have isOther : name ≠ tempName := by
      rintro rfl
      exact placed.temp.1 has
    obtain ⟨notControl, notTemp⟩ := other_place wf placed guarded.linked at_ isControl isOther
    exact guarded.wrote wrote more notControl (fun isTemp => absurd isTemp notTemp)

theorem control_renamed
    (placed : Placed system manifest) (guarded : Guarded system manifest restored fs)
    (run : controlRename system option.pgPath fs = .ok fs') (exists_ : ControlExists system option fs') :
    controlName ∈ restored := by
  unfold controlRename at run
  dsimp only at run
  split at run
  · rename_i copy
    have at_ := @global_at system option manifest fs wf placed guarded.linked pgFilePgControlTemp
    rw [storageExists_iff, (temp_place wf placed guarded.linked at_).1] at copy
    exact guarded.temp _ at_ copy
  · cases run
    exact absurd exists_ (guarded.no_control wf placed)

end Renames

/-! ## Paths and links -/

theorem linkCreate_file {link : ManifestLink}
    (run : linkCreate system option.toRestoreOption fs link = .ok fs') {q : List Str}
    (isFile : FileAt fs' q) : FileAt fs q := by
  unfold linkCreate at run
  dsimp only at run
  split at run
  · cases run
    exact isFile
  · split at run
    · cases run
      unfold FileAt at isFile ⊢
      rw [node_put] at isFile
      split at isFile
      · cases isFile
      · exact isFile
    · cases run

theorem pathStep_file {path : ManifestPath}
    (run : pathStep system option.toRestoreOption manifest fs path = .ok fs') {q : List Str}
    (isFile : FileAt fs' q) : FileAt fs q := by
  unfold pathStep at run
  dsimp only at run
  split at run
  · cases run
    exact isFile
  · split at run
    · exact linkCreate_file run isFile
    · split at run
      · cases run
        exact isFile
      · split at run
        · cases run
          unfold FileAt at isFile ⊢
          rw [node_mkdir] at isFile
          split at isFile
          · cases isFile
          · exact isFile
        · cases run

theorem Guarded.built (guarded : Guarded system manifest restored fs)
    (linked : Linked system manifest fs') (files : ∀ q, FileAt fs' q → FileAt fs q) :
    Guarded system manifest restored fs' :=
  ⟨linked, fun place isControl isFile => guarded.control place isControl (files place isFile),
    fun place isTemp isFile => guarded.temp place isTemp (files place isFile)⟩

/-- Cleaning leaves no copy of the control file from an earlier run. -/
theorem temp_cleaned (wf : WellFormed system option.toRestoreOption manifest)
    (placed : Placed system manifest) {ignore : List Str} (named : Named system manifest ignore fs)
    {place : List Str} (at_ : At system manifest tempName place) : ¬ FileAt fs place := by
  intro isFile
  obtain ⟨c, rest, isTarget, nonempty, isName, rfl⟩ := at_
  have keeps := named.named c isTarget rest _ nonempty isFile
  rw [keepRest, isName] at keeps
  rcases Bool.or_eq_true _ _ ▸ keeps with ignored_ | isNamed_
  · -- only files of the data directory itself are ignored
    unfold ignored at ignored_
    split at ignored_
    · rename_i file
      rw [Bool.and_eq_true] at ignored_
      obtain ⟨target, mem, noFile, rfl⟩ := isTarget
      have isBase : parts target.name = [manifestTargetPgData] := by
        simpa [cleanDataNew] using ignored_.1
      have extra := (wf.targetLinked target mem noFile [] isBase).1
      have short := congrArg List.length isName
      simp [cleanDataNew, isBase, extra, tempName] at short
    · cases ignored_
  · exact placed.temp.1 (fileFind_isSome.mp isNamed_)

end Phases

/-! ## Runs -/

section Runs

variable {fuel : Nat} {system : System} {option : RunOption}
  {unchanged : FileSystem → ManifestFile → Bool} {manifest : Manifest} {before : FileSystem}
  {s t : RunState}

/-- The control file has been removed and is not yet renamed. -/
def Phase.noControl : Phase → Prop
  | .start => False
  | .checked _ => False
  | .done => False
  | _ => True

def Holds (fuel : Nat) (system : System) (option : RunOption) (manifest : Manifest)
    (before : FileSystem) (s : RunState) : Prop :=
  let targets := manifest.targetList.map (cleanDataAt system manifest before)
  let removed := removeControl system option.toRestoreOption before
  let ignore := fileIgnore option.toRestoreOption manifest
  match s.phase with
  | .start => s.fs = before
  | .checked found => s.fs = before ∧ found = targets
  | .cleaning left => Shrinks removed s.fs ∧ (s.stopped = false → ∃ done, done ++ left = targets ∧
      Cleaning fuel manifest ignore targets done removed s.fs)
  | .paths paths => Guarded system manifest s.restored s.fs ∧ Named system manifest ignore s.fs ∧
      ∀ path ∈ paths, path ∈ manifest.pathList
  | .links links => Guarded system manifest s.restored s.fs ∧ Named system manifest ignore s.fs ∧
      ∀ link ∈ links, link ∈ manifest.linkList
  | .restoring queue running => Guarded system manifest s.restored s.fs ∧
      ∀ file ∈ queue ++ running, HasFile manifest (parts file.name)
  | .saving | .moving | .recovering _ | .removing | .lastRename =>
      Guarded system manifest s.restored s.fs
  | .done => ControlExists system option s.fs → controlName ∈ s.restored

theorem placed_skipFiles (placed : Placed system manifest) :
    Placed system (skipFiles option.toRestoreOption manifest) := by
  obtain ⟨files, equal, sub⟩ := skipFiles_eq option.toRestoreOption manifest
  have hasFile : ∀ name, HasFile { manifest with fileList := files } name → HasFile manifest name := by
    rintro name ⟨file, mem, isName⟩
    exact ⟨file, sub file mem, isName⟩
  rw [equal]
  constructor
  case global => exact placed.global
  case temp => exact ⟨fun has => placed.temp.1 (hasFile _ has), placed.temp.2⟩
  case saved => exact placed.saved
  case files => exact fun name has => placed.files name (hasFile name has)
  case links => exact placed.links
  case control => exact placed.control

/-- What a restore finds in the beginning. -/
structure Found (fuel : Nat) (system : System) (option : RunOption) (manifest : Manifest)
    (before : FileSystem) : Prop where
  wellFormed : WellFormed system option.toRestoreOption manifest
  placed : Placed system manifest
  closed : Closed [] before
  depth : Depth [] before fuel
  short : ∀ target ∈ manifest.targetList, (cleanDataNew system manifest target).targetPath.length < fuel
  /-- Where the manifest has the control file, the removal leaves none. -/
  free : ∀ place, ControlPlace system manifest place →
    ¬ FileAt (removeControl system option.toRestoreOption before) place

theorem Found.guarded (found : Found fuel system option manifest before) {fs : FileSystem}
    {restored : List (List Str)}
    (cleaning : Cleaning fuel manifest (fileIgnore option.toRestoreOption manifest)
      (manifest.targetList.map (cleanDataAt system manifest before))
      (manifest.targetList.map (cleanDataAt system manifest before))
      (removeControl system option.toRestoreOption before) fs) :
    Guarded system manifest restored fs := by
  have named := cleaning.named
  have shrinks : Shrinks (removeControl system option.toRestoreOption before) fs := cleaning.dirs
  constructor
  case linked => exact named.linked
  case control => exact fun place isControl isFile => found.free place isControl (shrinks.file isFile)
  case temp =>
    intro place isTemp isFile
    exact absurd isFile (temp_cleaned found.wellFormed found.placed named isTemp)

theorem Found.cleaning_first (found : Found fuel system option manifest before) :
    Cleaning fuel manifest (fileIgnore option.toRestoreOption manifest)
      (manifest.targetList.map (cleanDataAt system manifest before)) []
      (removeControl system option.toRestoreOption before)
      (removeControl system option.toRestoreOption before) :=
  ⟨removeControl_closed found.closed, removeControl_depth found.depth, fun _ _ at_ => .inl at_,
    fun _ _ _ _ _ _ at_ => at_, fun _ _ _ _ _ _ at_ _ => at_, by simp⟩

theorem Found.cleaning_next (found : Found fuel system option manifest before) {fs fs' : FileSystem}
    {done left : List CleanData} {target : CleanData}
    (all : done ++ target :: left = manifest.targetList.map (cleanDataAt system manifest before))
    (cleaning : Cleaning fuel manifest (fileIgnore option.toRestoreOption manifest)
      (manifest.targetList.map (cleanDataAt system manifest before)) done
      (removeControl system option.toRestoreOption before) fs)
    (run : cleanTarget fuel option.toRestoreOption manifest fs target = .ok fs') :
    Cleaning fuel manifest (fileIgnore option.toRestoreOption manifest)
      (manifest.targetList.map (cleanDataAt system manifest before)) (done ++ [target])
      (removeControl system option.toRestoreOption before) fs' := by
  have mem : target ∈ manifest.targetList.map (cleanDataAt system manifest before) := by
    rw [← all]
    simp
  have memDone : ∀ c ∈ done, c ∈ manifest.targetList.map (cleanDataAt system manifest before) := by
    intro c memC
    rw [← all]
    exact List.mem_append_left _ memC
  have absent : ∀ q, before.node q = none →
      (removeControl system option.toRestoreOption before).node q = none := by
    intro q none
    cases at_ : (removeControl system option.toRestoreOption before).node q with
    | none => rfl
    | some node => cases none.symm.trans (removeControl_sub at_)
  obtain ⟨apart, surveyed⟩ := surveyed_targets found.wellFormed absent
  have short : target.targetPath.length < fuel := by
    obtain ⟨other, memOther, rfl⟩ := List.mem_map.mp mem
    exact found.short other memOther
  exact cleaning_step apart surveyed (removeControl_closed found.closed) memDone mem short cleaning run

/-- Each step keeps what its phase promises. -/
theorem holds_step (found : Found fuel system option (skipFiles option.toRestoreOption manifest) before)
    (holds : Holds fuel system option (skipFiles option.toRestoreOption manifest) before s)
    (step : Step fuel system option unchanged manifest s t) :
    Holds fuel system option (skipFiles option.toRestoreOption manifest) before t := by
  have wf := found.wellFormed
  have placed := found.placed
  obtain ⟨files, skipped, -⟩ := skipFiles_eq option.toRestoreOption manifest
  have sameTargets : (skipFiles option.toRestoreOption manifest).targetList.map
      (cleanDataAt system (skipFiles option.toRestoreOption manifest) before) =
      manifest.targetList.map (cleanDataAt system manifest before) := by
    rw [skipped]
    rfl
  have samePaths : (skipFiles option.toRestoreOption manifest).pathList = manifest.pathList := by
    rw [skipped]
  have sameLinks : (skipFiles option.toRestoreOption manifest).linkList = manifest.linkList := by
    rw [skipped]
  cases step with
  | check passed =>
    obtain rfl : _ = before := holds
    refine ⟨rfl, ?_⟩
    rw [sameTargets]
    rcases targetSteps_cases found.depth manifest.targetList [] with ok | ⟨e, refused⟩
    · rw [ok] at passed
      cases passed
      rfl
    · rw [refused] at passed
      cases passed
  | control =>
    obtain ⟨same, isTargets⟩ := holds
    obtain rfl : _ = before := same
    exact ⟨Shrinks.refl _, fun _ => ⟨[], isTargets, found.cleaning_first⟩⟩
  | clean run =>
    obtain ⟨shrinks, more⟩ := holds
    obtain ⟨done, all, cleaning⟩ := more rfl
    have next := found.cleaning_next all cleaning run
    exact ⟨next.dirs, fun _ => ⟨_, by rw [List.append_assoc]; exact all, next⟩⟩
  | cleanPart ends between =>
    obtain ⟨shrinks, more⟩ := holds
    obtain ⟨done, all, cleaning⟩ := more rfl
    exact ⟨shrinks.trans ((cleanTarget_shrinks cleaning.closed cleaning.depth ends).between between),
      nofun⟩
  | cleaned =>
    obtain ⟨shrinks, more⟩ := holds
    obtain ⟨done, all, cleaning⟩ := more rfl
    rw [List.append_nil] at all
    subst all
    exact ⟨found.guarded cleaning, cleaning.named, fun path mem => samePaths ▸ mem⟩
  | path run =>
    obtain ⟨guarded, named, mems⟩ := holds
    have step := pathStep_step wf named (mems _ List.mem_cons_self) run
    exact ⟨guarded.built step.named.linked (fun q => pathStep_file run), step.named,
      fun other mem => mems other (List.mem_cons_of_mem _ mem)⟩
  | pathsMade =>
    obtain ⟨guarded, named, -⟩ := holds
    exact ⟨guarded, named, fun link mem => sameLinks ▸ mem⟩
  | link run =>
    obtain ⟨guarded, named, mems⟩ := holds
    have step := linkCreate_step wf named (mems _ List.mem_cons_self) run
    exact ⟨guarded.built step.named.linked (fun q => linkCreate_file run), step.named,
      fun other mem => mems other (List.mem_cons_of_mem _ mem)⟩
  | linksMade => exact holds.1
  | save run => exact guarded_base wf placed holds backupManifestTemp run
  | move run =>
    refine ⟨guarded_move wf placed holds run, ?_⟩
    intro file mem
    rw [List.append_nil] at mem
    exact ⟨file, mem, rfl⟩
  | give =>
    obtain ⟨guarded, has⟩ := holds
    refine ⟨guarded, fun other mem => has other ?_⟩
    simp only [List.append_assoc, List.mem_append, List.mem_cons] at mem ⊢
    tauto
  | write runs run =>
    obtain ⟨guarded, has⟩ := holds
    exact ⟨guarded_file wf placed guarded (has _ (List.mem_append_right _ runs)) run, has⟩
  | finish done =>
    obtain ⟨guarded, has⟩ := holds
    refine ⟨guarded, fun other mem => has other ?_⟩
    simp only [List.mem_append, List.mem_cons] at mem ⊢
    tauto
  | restoredAll => exact holds.1
  | recover run => exact guarded_base wf placed holds _ run
  | recovered => exact holds
  | remove run => exact guarded_remove wf placed holds run
  | rename run => exact control_renamed wf placed holds run
  | @stop fs phase restored =>
    cases phase with
    | cleaning left => exact ⟨holds.1, nofun⟩
    | _ => exact holds

theorem holds_reachable
    (found : Found fuel system option (skipFiles option.toRestoreOption manifest) before)
    (reach : Reachable fuel system option unchanged manifest before s) :
    Holds fuel system option (skipFiles option.toRestoreOption manifest) before s := by
  induction reach with
  | start => exact rfl
  | step _ step ih => exact holds_step found ih step

/-- From the removal to the rename there is no control file. -/
theorem Holds.no_control (found : Found fuel system option manifest before)
    (holds : Holds fuel system option manifest before s) (phase : s.phase.noControl) :
    ¬ ControlExists system option s.fs := by
  obtain ⟨fs, phase_, restored, stopped⟩ := s
  have guarded : ∀ {fs}, Guarded system manifest restored fs → ¬ ControlExists system option fs :=
    fun guarded => guarded.no_control found.wellFormed found.placed
  cases phase_ with
  | start => exact absurd phase id
  | checked targets => exact absurd phase id
  | cleaning left =>
    exact holds.1.no_control (removeControl_closed found.closed) removeControl_absent
  | paths paths => exact guarded holds.1
  | links links => exact guarded holds.1
  | saving => exact guarded holds
  | moving => exact guarded holds
  | restoring queue running => exact guarded holds.1
  | recovering files => exact guarded holds
  | removing => exact guarded holds
  | lastRename => exact guarded holds
  | done => exact absurd phase id

theorem step_makes_control (step : Step fuel system option unchanged manifest s t)
    (absent : ¬ ControlExists system option s.fs) (exists_ : ControlExists system option t.fs) :
    s.phase = .lastRename ∧ t.phase = .done ∧ t.restored = s.restored ∨ t.phase.noControl := by
  cases step with
  | check => exact absurd exists_ absent
  | rename => exact .inl ⟨rfl, rfl, rfl⟩
  | stop => exact absurd exists_ absent
  | _ => exact .inr trivial

/-- After the removal of the control file there is none until the rename, wherever the run
stops, and what is renamed was restored in this run. -/
theorem restore_control (wf : WellFormed system option.toRestoreOption manifest)
    (placed : Placed system manifest) (closed : Closed [] before)
    (free : ∀ place, ControlPlace system manifest place →
      ¬ FileAt (removeControl system option.toRestoreOption before) place) :
    ∃ enough, ∀ fuel, enough ≤ fuel → ∀ unchanged s,
      Reachable fuel system option unchanged manifest before s →
      (s.phase.noControl → ¬ ControlExists system option s.fs) ∧
      (s.phase = .done → ControlExists system option s.fs → controlName ∈ s.restored) ∧
      ∀ t, Step fuel system option unchanged manifest s t → ¬ ControlExists system option s.fs →
        ControlExists system option t.fs → s.phase = .lastRename ∧ controlName ∈ s.restored := by
  obtain ⟨depth, -, deep⟩ := exists_depth [] before
  obtain ⟨bound, within⟩ := exists_bound
    (fun target => (cleanDataNew system manifest target).targetPath.length) manifest.targetList
  refine ⟨max depth (bound + 1), fun fuel enough unchanged s reach => ?_⟩
  obtain ⟨files, skipped, -⟩ := skipFiles_eq option.toRestoreOption manifest
  have found : Found fuel system option (skipFiles option.toRestoreOption manifest) before := by
    constructor
    case wellFormed => exact wellFormed_skipFiles wf
    case placed => exact placed_skipFiles placed
    case closed => exact closed
    case depth => exact deep fuel (by omega)
    case short =>
      rw [skipped]
      intro target mem
      have short := within target mem
      exact Nat.lt_of_le_of_lt short (by omega)
    case free =>
      rw [skipped]
      exact free
  have holds := @holds_reachable fuel system option unchanged manifest before s found reach
  refine ⟨holds.no_control found, ?_, ?_⟩
  · intro isDone
    obtain ⟨fs, phase, restored, stopped⟩ := s
    cases isDone
    exact holds
  · intro t step absent exists_
    have later := holds_step found holds step
    rcases step_makes_control step absent exists_ with ⟨last, isDone, same⟩ | noControl
    · refine ⟨last, ?_⟩
      rw [← same]
      obtain ⟨fs, phase, restored, stopped⟩ := t
      cases isDone
      exact later exists_
    · exact absurd exists_ (later.no_control found noControl)

end Runs

/-! ## A control file behind a link -/

def globalOption : RunOption where
  delta := true
  force := false
  preserve := false
  pgPath := ["pg".toList]
  recoveryNone := false
  standby := false

def globalDisk (linked : Bool) : FileSystem :=
  ⟨[(["pg".toList], .dir), (["global".toList], .dir),
    (["global".toList, "pg_control".toList], .file .file)] ++
      if linked then [(["pg".toList, "global".toList], .file (.link "/global".toList))] else []⟩

theorem globalManifest_placed : Placed globalSystem globalManifest := by
  have noLink : ∀ place, ¬ LinkTo globalSystem globalManifest controlName place := by
    rintro place ⟨link, mem, -, -, isName, -⟩
    exact absurd (globalManifest_link ⟨link, mem, isName⟩) (by decide)
  constructor
  case global => exact globalManifest_path.mpr (.inr rfl)
  case temp =>
    constructor
    · intro has
      exact absurd (globalManifest_file has) (by decide)
    · intro has
      exact absurd (globalManifest_link has) (by decide)
  case saved =>
    intro has
    exact absurd (globalManifest_link has) (by decide)
  case files =>
    intro name has
    exact .inl ⟨[pgPathGlobal, pgFilePgControl], by simp, globalManifest_file has⟩
  case links =>
    rintro name place ⟨link, mem, destination, above, -, -, -, rfl⟩ -
    have root : ∀ name, ¬ At globalSystem globalManifest name ["global".toList] := by
      rintro name ⟨c, rest, ⟨target, memTarget, -, rfl⟩, nonempty, -, isPlace⟩
      have short := congrArg List.length isPlace
      have long := List.length_pos_iff.mpr nonempty
      rw [List.length_append, List.length_singleton] at short
      rcases globalManifest_target memTarget with rfl | rfl
      · change 1 = 1 + rest.length at short
        omega
      · change 1 = 1 + rest.length at short
        omega
    refine ⟨?_, root tempName⟩
    rintro (isControl | leads)
    · exact root controlName isControl
    · exact noLink _ leads
  case control => exact fun place leads => absurd leads (noLink place)

theorem globalDisk_closed (linked : Bool) : Closed [] (globalDisk linked) := by
  apply closed_of_entries
  intro e mem
  cases linked with
  | true =>
    simp only [globalDisk, if_true, List.cons_append, List.nil_append, List.mem_cons,
      List.not_mem_nil, or_false] at mem
    rcases mem with rfl | rfl | rfl | rfl
    · exact .inl rfl
    · exact .inl rfl
    · exact .inr rfl
    · exact .inr rfl
  | false =>
    simp only [globalDisk, Bool.false_eq_true, if_false, List.append_nil, List.mem_cons,
      List.not_mem_nil, or_false] at mem
    rcases mem with rfl | rfl | rfl
    · exact .inl rfl
    · exact .inl rfl
    · exact .inr rfl

/-- The control file is there after the check, and if the link to it is not, it is also
there after the link was made. -/
theorem control_before_removal_and_behind_link :
    WellFormed globalSystem globalOption.toRestoreOption globalManifest ∧
      Placed globalSystem globalManifest ∧
      (∃ s targets, Reachable 4 globalSystem globalOption (fun _ _ => false) globalManifest
          (globalDisk true) s ∧ s.phase = .checked targets ∧
        ControlExists globalSystem globalOption s.fs) ∧
      ∃ s, Reachable 4 globalSystem globalOption (fun _ _ => false) globalManifest
          (globalDisk false) s ∧ s.phase = .saving ∧ ControlExists globalSystem globalOption s.fs := by
  have checks : ∀ linked, Reachable 4 globalSystem globalOption (fun _ _ => false) globalManifest
      (globalDisk linked)
      { fs := globalDisk linked
        phase := .checked [cleanDataAt globalSystem globalManifest (globalDisk linked) baseTarget,
          cleanDataAt globalSystem globalManifest (globalDisk linked) globalTarget] } := by
    intro linked
    cases linked with
    | true => exact .step .start (.check rfl)
    | false => exact .step .start (.check rfl)
  refine ⟨globalManifest_wellFormed, globalManifest_placed, ?_, ?_⟩
  · exact ⟨_, _, checks true, rfl, rfl⟩
  · have cleaning := (checks false).step .control
    have first := cleaning.step (.clean rfl)
    have second := (first.step (.clean rfl)).step .cleaned
    have paths := ((second.step (.path rfl)).step (.path rfl)).step .pathsMade
    exact ⟨_, (paths.step (.link rfl)).step .linksMade, rfl, rfl⟩

/-- The link to the control file is there, so that the file itself is removed. -/
theorem restore_control_linked :
    ∃ enough, ∀ fuel, enough ≤ fuel → ∀ unchanged s,
      Reachable fuel globalSystem globalOption unchanged globalManifest (globalDisk true) s →
      (s.phase.noControl → ¬ ControlExists globalSystem globalOption s.fs) ∧
      (s.phase = .done → ControlExists globalSystem globalOption s.fs → controlName ∈ s.restored) ∧
      ∀ t, Step fuel globalSystem globalOption unchanged globalManifest s t →
        ¬ ControlExists globalSystem globalOption s.fs →
        ControlExists globalSystem globalOption t.fs →
        s.phase = .lastRename ∧ controlName ∈ s.restored := by
  apply restore_control globalManifest_wellFormed globalManifest_placed (globalDisk_closed true)
  intro place _ isFile
  have removed : removeControl globalSystem globalOption.toRestoreOption (globalDisk true) =
      ⟨[(["pg".toList], .dir), (["global".toList], .dir),
        (["pg".toList, "global".toList], .file (.link "/global".toList))]⟩ := rfl
  rw [removed] at isFile
  have mem := mem_of_lookup isFile
  simp at mem

end RestoreRun
