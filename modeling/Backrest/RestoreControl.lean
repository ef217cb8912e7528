import Backrest.RestoreRun

/-!
# The control file during a restore

Once the control file is removed there is none until the last step of the run, whatever
stops it. Cleaning takes away and adds directories only. Paths, links and files
then go to the places that the manifest has for them, and none of these is the place of
the control file.
-/

namespace RestoreRun

open Text BackupManifest FileTree TreeWalk RestoreClean

section Cleaning

variable {fuel : Nat} {system : System} {option : RunOption} {manifest : Manifest}
  {fs fs' middle : FileSystem}

def FileAt (fs : FileSystem) (place : List Str) : Prop := fs.node place = some (.file .file)

theorem storageExists_iff {place : List Str} :
    storageExists system fs place = true ↔ FileAt fs (follow system fs place) := by
  unfold storageExists FileAt
  cases fs.node (follow system fs place) with
  | none => simp
  | some node =>
    cases node with
    | dir => simp
    | file kind => cases kind <;> simp

theorem follow_cases (system : System) (fs : FileSystem) (place : List Str) :
    (∃ destination, fs.node place = some (.file (.link destination)) ∧
      follow system fs place = system.leadsTo place.dropLast destination) ∨
    ((∀ destination, fs.node place ≠ some (.file (.link destination))) ∧
      follow system fs place = place) := by
  by_cases isLink : ∃ destination, fs.node place = some (.file (.link destination))
  · obtain ⟨destination, at_⟩ := isLink
    exact .inl ⟨destination, at_, follow_of_link at_⟩
  · have notLink : ∀ destination, fs.node place ≠ some (.file (.link destination)) :=
      fun destination at_ => isLink ⟨destination, at_⟩
    exact .inr ⟨notLink, follow_of_not_link notLink⟩

theorem follow_congr {place : List Str} (same : fs'.node place = fs.node place) :
    follow system fs' place = follow system fs place := by
  unfold follow
  rw [same]

/-- Nothing but directories is new. -/
def Shrinks (fs fs' : FileSystem) : Prop :=
  ∀ q node, fs'.node q = some node → fs.node q = some node ∨ node = .dir

theorem Shrinks.refl (fs : FileSystem) : Shrinks fs fs := fun _ _ at_ => .inl at_

theorem Shrinks.trans (first : Shrinks fs middle) (second : Shrinks middle fs') : Shrinks fs fs' := by
  intro q node at_
  rcases second q node at_ with before | dir
  · exact first q node before
  · exact .inr dir

theorem Shrinks.between (shrinks : Shrinks fs fs') (between : Between fs fs' middle) :
    Shrinks fs middle := by
  intro q node at_
  rcases between q with before | after
  · exact .inl (before ▸ at_)
  · exact shrinks q node (after ▸ at_)

theorem Shrinks.file (shrinks : Shrinks fs fs') {q : List Str} {kind : Kind}
    (at_ : fs'.node q = some (.file kind)) : fs.node q = some (.file kind) :=
  (shrinks q _ at_).resolve_right nofun

/-- Without new files there is no new control file. -/
theorem Shrinks.no_control (shrinks : Shrinks fs fs') (closed : Closed [] fs)
    (absent : ¬ ControlExists system option fs) : ¬ ControlExists system option fs' := by
  intro control
  have place : ∀ fs : FileSystem, resolve system fs option.pgPath [pgPathGlobal, pgFilePgControl] =
      follow system fs (option.pgPath ++ [pgPathGlobal]) ++ [pgFilePgControl] := fun _ => rfl
  unfold ControlExists at control absent
  rw [storageExists_iff, place] at control absent
  have same : follow system fs' (option.pgPath ++ [pgPathGlobal]) =
      follow system fs (option.pgPath ++ [pgPathGlobal]) := by
    rcases follow_cases system fs' (option.pgPath ++ [pgPathGlobal]) with ⟨destination, at_, go⟩ |
      ⟨notLink, go⟩
    · rw [go, follow_of_link (shrinks.file at_)]
    · rcases follow_cases system fs (option.pgPath ++ [pgPathGlobal]) with ⟨destination, at_, -⟩ |
        ⟨-, go'⟩
      · -- below what was a link there was nothing
        exfalso
        have empty : fs.node (option.pgPath ++ [pgPathGlobal] ++ [pgFilePgControl]) = none := by
          by_contra present
          have dir := closed (option.pgPath ++ [pgPathGlobal]) pgFilePgControl (by simp)
            (Option.isSome_iff_ne_none.mpr present)
          rw [List.nil_append] at dir
          cases dir.symm.trans at_
        have noFile : ∀ kind, fs'.node (option.pgPath ++ [pgPathGlobal] ++ [pgFilePgControl]) ≠
            some (.file kind) := by
          intro kind isFile
          cases empty.symm.trans (shrinks.file isFile)
        rw [go, follow_of_not_link (fun destination => noFile (.link destination))] at control
        exact noFile .file control
      · rw [go, go']
  rw [same] at control
  apply absent
  rcases follow_cases system fs' (follow system fs (option.pgPath ++ [pgPathGlobal]) ++
      [pgFilePgControl]) with ⟨destination, at_, go⟩ | ⟨notLink, go⟩
  · rw [follow_of_link (shrinks.file at_), ← go]
    exact shrinks.file control
  · rw [go] at control
    have isFile := shrinks.file control
    rw [follow_of_not_link (fun destination at_ => by cases isFile.symm.trans at_)]
    exact isFile

theorem removeControl_absent :
    ¬ ControlExists system option (removeControl system option.toRestoreOption fs) := by
  unfold removeControl
  dsimp only
  by_cases exists_ : storageExists system fs
      (resolve system fs option.pgPath [pgPathGlobal, pgFilePgControl]) = true
  · rw [if_pos exists_]
    have place : ∀ fs : FileSystem, resolve system fs option.pgPath [pgPathGlobal, pgFilePgControl] =
        follow system fs (option.pgPath ++ [pgPathGlobal]) ++ [pgFilePgControl] := fun _ => rfl
    have names : pgPathGlobal ≠ pgFilePgControl := by decide
    have other : option.pgPath ++ [pgPathGlobal] ≠
        follow system fs (option.pgPath ++ [pgPathGlobal]) ++ [pgFilePgControl] := by
      intro same
      exact names (by simpa using congrArg List.getLast? same)
    unfold ControlExists
    rw [storageExists_iff, place, place]
    have same : follow system (fs.remove (follow system fs (option.pgPath ++ [pgPathGlobal]) ++
        [pgFilePgControl])) (option.pgPath ++ [pgPathGlobal]) =
          follow system fs (option.pgPath ++ [pgPathGlobal]) :=
      follow_congr (node_remove_of_ne other)
    have gone : (fs.remove (follow system fs (option.pgPath ++ [pgPathGlobal]) ++
        [pgFilePgControl])).node (follow system fs (option.pgPath ++ [pgPathGlobal]) ++
          [pgFilePgControl]) = none := by
      rw [node_remove, if_pos rfl]
    have stays : ∀ place, (fs.remove place).node place = none →
        follow system (fs.remove place) place = place := by
      intro place none
      exact follow_of_not_link (fun destination at_ => by cases none.symm.trans at_)
    rw [same, stays _ gone]
    intro isFile
    cases gone.symm.trans isFile
  · rw [if_neg exists_]
    exact exists_

theorem pathCreate_shrinks {path : List Str} {steps : List (List Str)}
    (ends : Ends (steps.foldlM (pathCreateStep path) fs) fs') : Shrinks fs fs' := by
  induction steps generalizing fs with
  | nil =>
    rcases ends with run | ⟨e, run⟩
    · cases run
      exact Shrinks.refl _
    · cases run
  | cons above steps ih =>
    rw [List.foldlM_cons] at ends
    have one : ∀ middle, pathCreateStep path fs above = .ok middle → Shrinks fs middle := by
      intro middle run q node at_
      unfold pathCreateStep at run
      split at run
      · cases run
        rw [node_mkdir] at at_
        split at at_
        · cases at_
          exact .inr rfl
        · exact .inl at_
      · cases run
        exact .inl at_
      · split at run
        · cases run
          exact .inl at_
        · cases run
    have failed : ∀ e middle, pathCreateStep path fs above = .error (.error (e, middle)) →
        middle = fs := by
      intro e middle run
      unfold pathCreateStep at run
      split at run
      · cases run
      · cases run
      · split at run
        · cases run
        · cases run
          rfl
    cases step : pathCreateStep path fs above with
    | ok middle =>
      rw [step] at ends
      exact (one middle step).trans (ih ends)
    | error halt =>
      rw [step] at ends
      rcases ends with run | ⟨e, run⟩
      · cases run
      · cases run
        rw [failed e fs' step]
        exact Shrinks.refl fs

/-- Cleaning a target takes away, and an error leaves a part of it. -/
theorem cleanTarget_shrinks (closed : Closed [] fs) (depth : Depth [] fs fuel) {c : CleanData}
    (ends : Ends (cleanTarget fuel option.toRestoreOption manifest fs c) fs') : Shrinks fs fs' := by
  have unchanged : ∀ {result : Except (Halt Failure) FileSystem}, (∀ next, result = .ok next → next = fs) →
      (∀ e next, result = .error (.error (e, next)) → next = fs) → Ends result fs' → Shrinks fs fs' := by
    rintro result done failed (run | ⟨e, run⟩)
    · rw [done fs' run]
      exact Shrinks.refl fs
    · rw [failed e fs' run]
      exact Shrinks.refl fs
  unfold cleanTarget at ends
  split at ends
  · split at ends
    · exact unchanged (fun _ run => by cases run; rfl) (fun _ _ run => by cases run) ends
    · split at ends
      · exact unchanged (fun _ run => by cases run) (fun _ _ run => by cases run; rfl) ends
      · rcases ends with run | ⟨e, run⟩
        · intro q node at_
          exact .inl ((infoList_emptied closed depth run).sub at_)
        · unfold infoList at run
          split at run
          · cases run
            exact Shrinks.refl fs
          · cases run
            exact Shrinks.refl fs
          · rename_i dir
            obtain ⟨closedHere, pos, depthHere⟩ := walk_ready closed depth dir
            obtain ⟨t, u, walked, -⟩ := walk_spec (fun names => strLstSort_perm names .asc)
              (@cleans_callback manifest (fileIgnore option.toRestoreOption manifest) c) fuel
              c.targetPath fs () pos depthHere closedHere (fun _ _ _ => trivial) trivial
            rw [walked] at run
            cases run
  · dsimp only at ends
    split at ends
    · exact unchanged (fun _ run => by cases run) (fun _ _ run => by cases run; rfl) ends
    · exact pathCreate_shrinks ends

end Cleaning

/-! ## Places -/

section Places

variable {system : System} {option : RunOption} {manifest : Manifest} {fs fs' : FileSystem}
  {name place : List Str}

def tempName : List Str := [manifestTargetPgData, pgPathGlobal, pgFilePgControlTemp]

def At (system : System) (manifest : Manifest) (name place : List Str) : Prop :=
  ∃ c rest, DirTarget manifest system c ∧ rest ≠ [] ∧ c.targetName ++ rest = name ∧
    place = c.targetPath ++ rest

def LinkTo (system : System) (manifest : Manifest) (name place : List Str) : Prop :=
  ∃ link ∈ manifest.linkList, ∃ destination above, parts link.name = name ∧
    link.destination = some destination ∧ At system manifest name above ∧
    place = system.leadsTo above.dropLast destination

/-- The control file may stand here. -/
def ControlPlace (system : System) (manifest : Manifest) (place : List Str) : Prop :=
  At system manifest controlName place ∨ LinkTo system manifest controlName place

/-- What holds of the names of a manifest that was made by a backup and mapped. -/
structure Placed (system : System) (manifest : Manifest) : Prop where
  global : HasPath manifest [manifestTargetPgData, pgPathGlobal]
  /-- Temporary names are not those of the backup. -/
  temp : ¬ HasFile manifest tempName ∧ ¬ HasLink manifest tempName
  saved : ¬ HasLink manifest [manifestTargetPgData, backupManifestTemp]
  /-- A file is in the data directory or in a tablespace. -/
  files : ∀ name, HasFile manifest name → (∃ rest, rest ≠ [] ∧ name = manifestTargetPgData :: rest) ∨
    ∃ target ∈ manifest.targetList, IsTablespace manifest target ∧
      ∃ rest, rest ≠ [] ∧ name = parts target.name ++ (targetExtra manifest target ++ rest)
  /-- Other links do not lead to the control file. -/
  links : ∀ name place, LinkTo system manifest name place → name ≠ controlName →
    ¬ ControlPlace system manifest place ∧ ¬ At system manifest tempName place
  /-- The link of the control file leads out of the directory targets. -/
  control : ∀ place, LinkTo system manifest controlName place → ∀ name, ¬ At system manifest name place

theorem At.unique (wf : WellFormed system option.toRestoreOption manifest) {name' : List Str}
    (at_ : At system manifest name place) (at_' : At system manifest name' place) : name = name' := by
  obtain ⟨c, rest, isTarget, -, rfl, rfl⟩ := at_
  obtain ⟨d, more, isTarget', -, rfl, same⟩ := at_'
  obtain ⟨-, sameName, -, rfl⟩ := same_target wf isTarget isTarget' same
  rw [sameName]

theorem follow_place (linked : Linked system manifest fs) (at_ : At system manifest name place) :
    follow system fs place = place ∨ LinkTo system manifest name (follow system fs place) := by
  rcases follow_cases system fs place with ⟨destination, isLink, go⟩ | ⟨-, go⟩
  · obtain ⟨c, rest, isTarget, nonempty, rfl, rfl⟩ := at_
    obtain ⟨link, mem, isName, isDestination⟩ := linked.link c isTarget rest destination nonempty isLink
    exact .inr ⟨link, mem, destination, _, isName, isDestination,
      ⟨c, rest, isTarget, nonempty, rfl, rfl⟩, go⟩
  · exact .inl go

section Places
variable (wf : WellFormed system option.toRestoreOption manifest)
include wf

theorem pgData_at (linked : Linked system manifest fs) {names : List Str} (nonempty : names ≠ [])
    (paths : ∀ k, 0 < k → k < names.length → HasPath manifest (manifestTargetPgData :: names.take k)) :
    At system manifest (manifestTargetPgData :: names) (resolve system fs option.pgPath names) := by
  obtain ⟨c, more, isTarget, nonemptyMore, isName, isPlace⟩ := resolve_located wf linked nonempty paths
  exact ⟨c, more, isTarget, nonemptyMore, isName, isPlace⟩

theorem global_at
    (placed : Placed system manifest) (linked : Linked system manifest fs) (name : Str) :
    At system manifest [manifestTargetPgData, pgPathGlobal, name]
      (resolve system fs option.pgPath [pgPathGlobal, name]) := by
  apply pgData_at wf linked (by simp)
  intro k pos lt
  simp only [List.length_cons, List.length_nil] at lt
  obtain rfl : k = 1 := by omega
  exact placed.global

theorem base_at (name : Str) :
    At system manifest [manifestTargetPgData, name] (option.pgPath ++ [name]) := by
  obtain ⟨c, isTarget, isName, isPath⟩ := wf.base
  exact ⟨c, [name], isTarget, by simp, by rw [isName]; rfl, by rw [isPath]⟩

theorem file_at
    (placed : Placed system manifest) (linked : Linked system manifest fs) (has : HasFile manifest name)
    (run : fileWrite system option.pgPath fs (manifestPathPg name) = .ok fs') :
    At system manifest name (resolve system fs option.pgPath (manifestPathPg name)) := by
  rcases placed.files name has with ⟨rest, nonempty, rfl⟩ | ⟨target, mem, tablespace, rest, nonempty, rfl⟩
  · rw [manifestPathPg_cons]
    apply pgData_at wf linked nonempty
    intro k pos lt
    have path := wf.parents _ (.inr (.inr has)) (k + 1) (by omega) (by simpa using lt)
    rwa [List.take_succ_cons] at path
  · have tablespace' := tablespace
    obtain ⟨noFile, id, isParts, -⟩ := tablespace'
    have same : manifestPathPg (parts target.name ++ (targetExtra manifest target ++ rest)) =
        parts target.name ++ (targetExtra manifest target ++ rest) := by
      rw [isParts, List.cons_append, manifestPathPg_tblspc]
    rw [same] at run ⊢
    have possible : (fs.node (resolve system fs option.pgPath
          (parts target.name ++ (targetExtra manifest target ++ rest)))).isSome ∨
        isDir fs (resolve system fs option.pgPath
          (parts target.name ++ (targetExtra manifest target ++ rest))).dropLast = true := by
      by_cases there : (fs.node (resolve system fs option.pgPath
          (parts target.name ++ (targetExtra manifest target ++ rest)))).isSome
      · exact .inl there
      · right
        have missing : fs.node (resolve system fs option.pgPath
            (parts target.name ++ (targetExtra manifest target ++ rest))) = none := by simpa using there
        unfold fileWrite at run
        rw [follow_of_not_link (fun destination at_ => by cases missing.symm.trans at_)] at run
        simp only [missing] at run
        split at run
        · assumption
        · cases run
    refine ⟨cleanDataNew system manifest target, rest, ⟨target, mem, noFile, rfl⟩, nonempty, ?_, ?_⟩
    · rw [← List.append_assoc]
      rfl
    · exact tablespace_located wf linked mem tablespace (by simp [nonempty]) (.inr (.inr has)) possible

theorem other_name (placed : Placed system manifest) (at_ : At system manifest name place)
    (notControl : name ≠ controlName) (notTemp : name ≠ tempName) :
    ¬ ControlPlace system manifest place ∧ ¬ At system manifest tempName place := by
  constructor
  · rintro (isControl | leads)
    · exact notControl (at_.unique wf isControl)
    · exact placed.control place leads name at_
  · intro isTemp
    exact notTemp (at_.unique wf isTemp)

/-- Neither the control file nor its copy is written under another name. -/
theorem other_place (placed : Placed system manifest) (linked : Linked system manifest fs)
    (at_ : At system manifest name place) (notControl : name ≠ controlName) (notTemp : name ≠ tempName) :
    ¬ ControlPlace system manifest (follow system fs place) ∧
      ¬ At system manifest tempName (follow system fs place) := by
  rcases follow_place linked at_ with same | leads
  · rw [same]
    exact other_name wf placed at_ notControl notTemp
  · exact placed.links name _ leads notControl

theorem temp_place (placed : Placed system manifest) (linked : Linked system manifest fs)
    (at_ : At system manifest tempName place) :
    follow system fs place = place ∧ ¬ ControlPlace system manifest place := by
  constructor
  · rcases follow_place linked at_ with same | ⟨link, mem, -, -, isName, -⟩
    · exact same
    · exact absurd ⟨link, mem, isName⟩ placed.temp.2
  · rintro (isControl | leads)
    · exact absurd (at_.unique wf isControl) (by decide)
    · exact placed.control place leads tempName at_

end Places

end Places

/-! ## Changes of a run -/

section Changes

variable {system : System} {option : RunOption} {manifest : Manifest} {fs fs' : FileSystem}
  {place : List Str} {restored restored' : List (List Str)}

/-- There is no control file, and a copy of it only if a job has written it. -/
structure Guarded (system : System) (manifest : Manifest) (restored : List (List Str))
    (fs : FileSystem) : Prop where
  linked : Linked system manifest fs
  control : ∀ place, ControlPlace system manifest place → ¬ FileAt fs place
  temp : ∀ place, At system manifest tempName place → FileAt fs place → controlName ∈ restored

/-- Something that is not a link is written to a place, and files may be taken away. -/
def Wrote (fs fs' : FileSystem) (place : List Str) : Prop :=
  ∀ q, fs'.node q = fs.node q ∨ fs.node q ≠ some .dir ∧ (fs'.node q = none ∨
    q = place ∧ isDir fs place.dropLast = true ∧
      ∃ kind, fs'.node q = some (.file kind) ∧ ∀ destination, kind ≠ .link destination)

theorem Wrote.file (wrote : Wrote fs fs' place) {q : List Str} (isFile : FileAt fs' q) :
    FileAt fs q ∨ q = place := by
  rcases wrote q with same | ⟨-, gone | ⟨here, -⟩⟩
  · exact .inl (same.symm.trans isFile)
  · cases gone.symm.trans isFile
  · exact .inr here

theorem Wrote.dir (wrote : Wrote fs fs' place) {q : List Str} :
    fs'.node q = some .dir ↔ fs.node q = some .dir := by
  rcases wrote q with same | ⟨notDir, gone | ⟨-, -, kind, new, -⟩⟩
  · rw [same]
  · rw [gone]
    exact ⟨nofun, fun dir => absurd dir notDir⟩
  · rw [new]
    exact ⟨nofun, fun dir => absurd dir notDir⟩

theorem Wrote.closed (wrote : Wrote fs fs' place) (closed : Closed [] fs) : Closed [] fs' := by
  intro q name nonempty isSome
  rw [List.nil_append] at isSome ⊢
  rw [wrote.dir]
  rcases wrote (q ++ [name]) with same | ⟨-, gone | ⟨here, parent, -⟩⟩
  · rw [same] at isSome
    exact closed q name nonempty isSome
  · rw [gone] at isSome
    cases isSome
  · rw [← here, List.dropLast_concat] at parent
    exact (isDir_iff.mp parent).resolve_left nonempty

theorem Wrote.linked (wrote : Wrote fs fs' place) (linked : Linked system manifest fs) :
    Linked system manifest fs' := by
  constructor
  case closed => exact wrote.closed linked.closed
  case roots => exact fun c isTarget => wrote.dir.mpr (linked.roots c isTarget)
  case link =>
    intro c isTarget rest destination nonempty at_
    rcases wrote (c.targetPath ++ rest) with same | ⟨-, gone | ⟨-, -, kind, new, notLink⟩⟩
    · exact linked.link c isTarget rest destination nonempty (same.symm.trans at_)
    · cases gone.symm.trans at_
    · cases new.symm.trans at_
      exact absurd rfl (notLink destination)
  case tablespace =>
    intro target mem tablespace c isTarget rest nonempty isName dir
    exact linked.tablespace target mem tablespace c isTarget rest nonempty isName (wrote.dir.mp dir)

/-- A change elsewhere keeps the control file away. -/
theorem Guarded.wrote (guarded : Guarded system manifest restored fs) (wrote : Wrote fs fs' place)
    (more : ∀ name ∈ restored, name ∈ restored') (notControl : ¬ ControlPlace system manifest place)
    (temp : At system manifest tempName place → controlName ∈ restored') :
    Guarded system manifest restored' fs' := by
  constructor
  case linked => exact wrote.linked guarded.linked
  case control =>
    intro q isControl isFile
    rcases wrote.file isFile with before | rfl
    · exact guarded.control q isControl before
    · exact notControl isControl
  case temp =>
    intro q isTemp isFile
    rcases wrote.file isFile with before | rfl
    · exact more _ (guarded.temp q isTemp before)
    · exact temp isTemp

theorem Guarded.no_control (wf : WellFormed system option.toRestoreOption manifest)
    (placed : Placed system manifest) (guarded : Guarded system manifest restored fs) :
    ¬ ControlExists system option fs := by
  unfold ControlExists
  rw [storageExists_iff]
  have at_ := @global_at system option manifest fs wf placed guarded.linked pgFilePgControl
  rcases follow_place guarded.linked at_ with same | leads
  · rw [same]
    exact guarded.control _ (.inl at_)
  · exact guarded.control _ (.inr leads)

theorem fileWrite_wrote {names : List Str}
    (run : fileWrite system option.pgPath fs names = .ok fs') :
    Wrote fs fs' (follow system fs (resolve system fs option.pgPath names)) := by
  unfold fileWrite at run
  dsimp only at run
  split at run
  · rename_i missing
    split at run
    · rename_i parent
      cases run
      intro q
      rw [node_put]
      by_cases here : q = follow system fs (resolve system fs option.pgPath names)
      · subst here
        rw [if_pos rfl, missing]
        exact .inr ⟨nofun, .inr ⟨rfl, parent, .file, rfl, nofun⟩⟩
      · rw [if_neg here]
        exact .inl rfl
    · cases run
  · cases run
    exact fun q => .inl rfl
  · cases run

theorem fileMove_wrote {source destination : List Str}
    (notLink : ∀ leads, fs.node source ≠ some (.file (.link leads)))
    (parent : isDir fs destination.dropLast = true) (run : fileMove fs source destination = .ok fs') :
    Wrote fs fs' destination := by
  have moved : ∀ kind, fs.node source = some (.file kind) → fs.node destination ≠ some .dir →
      Wrote fs ((fs.remove source).put destination kind) destination := by
    intro kind at_ notDir q
    rw [node_put, node_remove]
    by_cases here : q = destination
    · rw [if_pos here, here]
      refine .inr ⟨notDir, .inr ⟨rfl, parent, kind, rfl, ?_⟩⟩
      rintro leads rfl
      exact notLink leads at_
    · rw [if_neg here]
      by_cases from_ : q = source
      · rw [if_pos from_, from_, at_]
        exact .inr ⟨nofun, .inl rfl⟩
      · rw [if_neg from_]
        exact .inl rfl
  unfold fileMove at run
  split at run
  · cases run
  · cases run
  · cases run
  · rename_i kind at_ other
    cases run
    exact moved kind at_ other

theorem fileRemove_wrote (run : fileRemove fs place = .ok fs') : Wrote fs fs' place := by
  unfold fileRemove at run
  split at run
  · cases run
  · rename_i notDir
    cases run
    intro q
    rw [node_remove]
    by_cases here : q = place
    · rw [if_pos here, here]
      exact .inr ⟨notDir, .inl rfl⟩
    · rw [if_neg here]
      exact .inl rfl

end Changes

end RestoreRun
