import Backrest.RestoreCleanTargets

/-!
# Refusing a restore

Without delta a restore is refused when a target directory is not empty or the
file of a file link is there, and nothing has changed then.
-/

namespace RestoreClean

open Text BackupManifest FileTree TreeWalk

section Check
variable {fuel : Nat} {system : System} {option : RestoreOption} {manifest : Manifest}
  {ignore : List Str} {c : CleanData} {fs : FileSystem}

/-- Listing a directory that must be empty goes well as long as everything is ignored. -/
theorem refuse_fold {enter : List Str → FileSystem × Unit → Except (Halt Failure) (FileSystem × Unit)}
    (entries : List (Str × Node Kind)) :
    entries.foldlM (visitEntry (restoreCleanInfoListCallback manifest ignore false c) enter
        c.targetPath) (fs, ()) =
      if entries.all (fun entry => ignored ignore c [entry.1] entry.2) then .ok (fs, ())
      else .error (.error (pathNotEmptyError c.targetPath, fs)) := by
  induction entries with
  | nil => rfl
  | cons entry rest ih =>
    rw [List.foldlM_cons, List.all_cons]
    cases isIgnored : ignored ignore c [entry.1] entry.2 with
    | true =>
      have visited : visitEntry (restoreCleanInfoListCallback manifest ignore false c) enter
          c.targetPath (fs, ()) entry = .ok (fs, ()) := by
        simp [visitEntry, restoreCleanInfoListCallback, isIgnored]
      rw [visited, Bool.true_and]
      exact ih
    | false =>
      have visited : visitEntry (restoreCleanInfoListCallback manifest ignore false c) enter
          c.targetPath (fs, ()) entry =
          .error (.error (pathNotEmptyError c.targetPath, fs)) := by
        simp [visitEntry, restoreCleanInfoListCallback, isIgnored]
      rw [visited]
      rfl

theorem infoList_refuse (depth : Depth [] fs fuel) (dir : fs.node c.targetPath = some .dir) :
    infoList fuel id manifest ignore false c fs =
      if (listing id fs c.targetPath).all (fun entry => ignored ignore c [entry.1] entry.2) then
        .ok fs
      else .error (.error (pathNotEmptyError c.targetPath, fs)) := by
  have short : c.targetPath.length < fuel := depth c.targetPath (by simp [dir])
  obtain ⟨more, rfl⟩ : ∃ more, fuel = more + 1 := ⟨fuel - 1, by omega⟩
  rw [infoList, dir]
  simp only [walk]
  rw [refuse_fold]
  cases (listing id fs c.targetPath).all (fun entry => ignored ignore c [entry.1] entry.2) with
  | true => rfl
  | false => rfl

/-- What makes a restore without delta impossible: an entry in a target directory that is
not ignored, or the file of a file link. -/
def Occupied (system : System) (option : RestoreOption) (manifest : Manifest) (fs : FileSystem)
    (c : CleanData) : Prop :=
  (c.file = none ∧ ∃ name node, fs.node (c.targetPath ++ [name]) = some node ∧
    ignored (fileIgnore option manifest) c [name] node = false) ∨
  ∃ file, c.file = some file ∧ storageExists system fs (c.targetPath ++ [file]) = true

/-- A check leaves the file system alone. -/
theorem targetCheck_cases (depth : Depth [] fs fuel) :
    targetCheck fuel system option manifest fs c = .ok () ∨
      ∃ e, targetCheck fuel system option manifest fs c = .error (.error (e, fs)) := by
  unfold targetCheck
  split
  · rename_i e _
    exact .inr ⟨e, rfl⟩
  · split
    · exact .inl rfl
    · split
      · cases node : fs.node c.targetPath with
        | none =>
          simp only [infoList, node]
          exact .inr ⟨_, rfl⟩
        | some there =>
          cases there with
          | file kind =>
            simp only [infoList, node]
            exact .inr ⟨_, rfl⟩
          | dir =>
            rw [infoList_refuse depth node]
            cases (listing id fs c.targetPath).all
                (fun entry => ignored (fileIgnore option manifest) c [entry.1] entry.2) with
            | true => exact .inl rfl
            | false => exact .inr ⟨_, rfl⟩
      · split
        · exact .inr ⟨_, rfl⟩
        · exact .inl rfl

theorem targetCheck_refuses (closed : Closed [] fs) (depth : Depth [] fs fuel)
    (nonempty : c.targetPath ≠ []) (noDelta : (option.delta || option.force) = false)
    (occupied : Occupied system option manifest fs c) :
    (fs.node c.targetPath).isSome ∧
      ∃ e, targetCheck fuel system option manifest fs c = .error (.error (e, fs)) := by
  -- something in the directory means that the directory is there
  have parent : ∀ name, (fs.node (c.targetPath ++ [name])).isSome →
      fs.node c.targetPath = some .dir := fun name isSome => closed c.targetPath name nonempty isSome
  rcases occupied with ⟨noFile, name, node, at_, notIgnored⟩ | ⟨file, isFile, exists_⟩
  · have dir := parent name (by rw [at_]; rfl)
    refine ⟨by rw [dir]; rfl, ?_⟩
    unfold targetCheck
    split
    · exact ⟨_, rfl⟩
    · rw [noDelta, noFile]
      simp only [Bool.false_eq_true, if_false]
      rw [infoList_refuse depth dir, if_neg]
      · exact ⟨_, rfl⟩
      · intro all
        have mem : (name, node) ∈ listing id fs c.targetPath :=
          (mem_listing (fun names => List.Perm.refl names)).mpr at_
        have isIgnored := List.all_eq_true.mp all _ mem
        rw [notIgnored] at isIgnored
        exact absurd isIgnored (by decide)
  · have there : (fs.node (c.targetPath ++ [file])).isSome := by
      unfold storageExists follow at exists_
      cases node : fs.node (c.targetPath ++ [file]) with
      | some _ => rfl
      | none => simp [node] at exists_
    refine ⟨by rw [parent file there]; rfl, ?_⟩
    unfold targetCheck
    split
    · exact ⟨_, rfl⟩
    · rw [noDelta, isFile]
      simp only [Bool.false_eq_true, if_false, exists_, if_true]
      exact ⟨_, rfl⟩

/-- The targets as they are found. -/
def cleanDataAt (system : System) (manifest : Manifest) (fs : FileSystem) (target : ManifestTarget) :
    CleanData :=
  { cleanDataNew system manifest target with
    isThere := (fs.node (cleanDataNew system manifest target).targetPath).isSome }

theorem targetStep_cases (depth : Depth [] fs fuel) (cs : List CleanData) (target : ManifestTarget) :
    targetStep fuel system option manifest fs cs target =
        .ok (cs ++ [cleanDataAt system manifest fs target]) ∨
      ∃ e, targetStep fuel system option manifest fs cs target = .error (.error (e, fs)) := by
  unfold targetStep cleanDataAt
  by_cases there : (fs.node (cleanDataNew system manifest target).targetPath).isSome
  · simp only [there, if_true]
    rcases @targetCheck_cases fuel system option manifest
      (cleanDataNew system manifest target) fs depth with ok | ⟨e, error⟩
    · rw [ok]
      exact .inl rfl
    · rw [error]
      exact .inr ⟨e, rfl⟩
  · left
    rw [Bool.not_eq_true] at there
    simp only [there, Bool.false_eq_true, if_false]
    rfl

/-- The first step finds all targets or refuses, and changes nothing. -/
theorem targetSteps_cases (depth : Depth [] fs fuel) (targets : List ManifestTarget) :
    ∀ cs, targets.foldlM (targetStep fuel system option manifest fs) cs =
        .ok (cs ++ targets.map (cleanDataAt system manifest fs)) ∨
      ∃ e, targets.foldlM (targetStep fuel system option manifest fs) cs =
        .error (.error (e, fs)) := by
  induction targets with
  | nil =>
    intro cs
    left
    rw [List.map_nil, List.append_nil]
    rfl
  | cons target rest ih =>
    intro cs
    rw [List.foldlM_cons]
    rcases targetStep_cases depth cs target with ok | ⟨e, error⟩
    · rw [ok]
      have later := ih (cs ++ [cleanDataAt system manifest fs target])
      rwa [List.append_assoc, List.singleton_append] at later
    · rw [error]
      exact .inr ⟨e, rfl⟩

theorem targetSteps_refuse (closed : Closed [] fs) (depth : Depth [] fs fuel)
    (noDelta : (option.delta || option.force) = false) {targets : List ManifestTarget}
    {target : ManifestTarget} (mem : target ∈ targets)
    (nonempty : (cleanDataNew system manifest target).targetPath ≠ [])
    (occupied : Occupied system option manifest fs (cleanDataNew system manifest target)) :
    ∀ cs, ∃ e, targets.foldlM (targetStep fuel system option manifest fs) cs =
      .error (.error (e, fs)) := by
  induction targets with
  | nil => exact absurd mem List.not_mem_nil
  | cons first rest ih =>
    intro cs
    rw [List.foldlM_cons]
    rcases List.mem_cons.mp mem with rfl | mem
    · obtain ⟨there, e, error⟩ := targetCheck_refuses closed depth nonempty noDelta occupied
      have step : targetStep fuel system option manifest fs cs target = .error (.error (e, fs)) := by
        simp only [targetStep, there, if_true, error]
      rw [step]
      exact ⟨e, rfl⟩
    · rcases targetStep_cases depth cs first with ok | ⟨e, error⟩
      · rw [ok]
        exact ih mem _
      · rw [error]
        exact ⟨e, rfl⟩

end Check

end RestoreClean
