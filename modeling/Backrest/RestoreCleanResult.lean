import Backrest.RestoreCleanBuild

/-!
# The result of cleaning and building

A restore that is refused has changed nothing. One that goes well leaves only what
the manifest names below its targets. It also leaves every path and every link of
the manifest, but only if nothing of another kind stood in their places that
cleaning keeps.
-/

namespace RestoreClean

open Text BackupManifest FileTree TreeWalk

/-! ## The run -/

section Run
variable {fuel : Nat} {system : System} {option : RestoreOption} {manifest manifest' : Manifest}
  {ignore : List Str} {fs fs' : FileSystem}

theorem steps_fold {α : Type} {step : FileSystem → α → Except (Halt Failure) FileSystem}
    {done : α → FileSystem → Prop} {items : List α}
    (stable : ∀ item fs fs', Closed [] fs → Extends fs fs' → done item fs → done item fs')
    (one : ∀ item ∈ items, ∀ fs fs', Named system manifest ignore fs → step fs item = .ok fs' →
      Step system manifest ignore fs fs' (done item))
    (inv : Named system manifest ignore fs) (run : items.foldlM step fs = .ok fs') :
    Step system manifest ignore fs fs' (fun fs => ∀ item ∈ items, done item fs) := by
  induction items generalizing fs with
  | nil =>
    cases run
    exact ⟨inv, fun _ _ at_ => at_, fun clear => ⟨clear, by simp⟩⟩
  | cons item items ih =>
    rw [List.foldlM_cons] at run
    obtain ⟨middle, first, later⟩ := Effects.except_bind_ok run
    have firstStep := one item List.mem_cons_self fs middle inv first
    have laterStep := ih (fun other mem => one other (List.mem_cons_of_mem _ mem)) firstStep.named later
    refine ⟨laterStep.named, fun q node at_ => laterStep.grows q node (firstStep.grows q node at_), ?_⟩
    intro clear
    obtain ⟨clearMiddle, doneFirst⟩ := firstStep.clear clear
    obtain ⟨clearLast, doneLater⟩ := laterStep.clear clearMiddle
    refine ⟨clearLast, ?_⟩
    intro other mem
    rcases List.mem_cons.mp mem with rfl | mem
    · exact stable other middle fs' firstStep.named.closed laterStep.grows doneFirst
    · exact doneLater other mem

/-- Files that are not restored are taken out of the manifest, and nothing else. -/
theorem skipFiles_eq (option : RestoreOption) (manifest : Manifest) :
    ∃ files, skipFiles option manifest = { manifest with fileList := files } ∧
      ∀ file ∈ files, file ∈ manifest.fileList := by
  have first : ∃ files, (if (fileFindDefault manifest pgFileTablespaceMap).isSome ∧
      90500 ≤ manifest.data.pgVersion then fileRemove manifest pgFileTablespaceMap else manifest) =
      { manifest with fileList := files } ∧ ∀ file ∈ files, file ∈ manifest.fileList := by
    split
    · exact ⟨_, rfl, fun file mem => List.mem_of_mem_eraseP mem⟩
    · exact ⟨manifest.fileList, rfl, fun file mem => mem⟩
  obtain ⟨files, equal, sub⟩ := first
  unfold skipFiles
  simp only [equal]
  split
  · exact ⟨_, rfl, fun file mem => sub file (List.mem_of_mem_eraseP mem)⟩
  · exact ⟨files, rfl, sub⟩

theorem wellFormed_skipFiles (wf : WellFormed system option manifest) :
    WellFormed system option (skipFiles option manifest) := by
  obtain ⟨files, equal, sub⟩ := skipFiles_eq option manifest
  have hasFile : ∀ name, HasFile { manifest with fileList := files } name → HasFile manifest name := by
    rintro name ⟨file, mem, isName⟩
    exact ⟨file, sub file mem, isName⟩
  rw [equal]
  constructor
  case base => exact wf.base
  case nonempty => exact wf.nonempty
  case apart => exact wf.apart
  case unique => exact wf.unique
  case parents =>
    intro name has
    apply wf.parents name
    rcases has with path | link | file
    · exact .inl path
    · exact .inr (.inl link)
    · exact .inr (.inr (hasFile name file))
  case pathNotFile => exact fun name path file => wf.pathNotFile name path (hasFile name file)
  case linkUnique => exact wf.linkUnique
  case linkNamed => exact wf.linkNamed
  case pathNamed => exact wf.pathNamed
  case tblspc => exact wf.tblspc
  case targetLinked => exact wf.targetLinked
  case linked => exact wf.linked

theorem removeControl_nodes (system : System) (option : RestoreOption) (fs : FileSystem) :
    ∃ place, fs.node place ≠ some .dir ∧ ∀ q, (removeControl system option fs).node q =
      if q = place then none else fs.node q := by
  unfold removeControl
  simp only
  split
  · rename_i exists_
    refine ⟨_, ?_, fun q => node_remove⟩
    intro dir
    simp [storageExists, follow, dir] at exists_
  · -- there is always a path at which nothing stands
    obtain ⟨depth, -, deep⟩ := exists_depth [] fs
    have none : fs.node (List.replicate (depth + 1) []) = none := by
      by_contra present
      have short := deep depth (Nat.le_refl _) _ (Option.isSome_iff_ne_none.mpr present)
      rw [List.length_cons, List.length_replicate] at short
      omega
    refine ⟨List.replicate (depth + 1) [], by rw [none]; simp, fun q => ?_⟩
    split
    · rename_i here
      rw [here, none]
    · rfl

theorem removeControl_sub {q : List Str} {node : Node Kind}
    (at_ : (removeControl system option fs).node q = some node) : fs.node q = some node := by
  obtain ⟨place, -, nodes⟩ := removeControl_nodes system option fs
  rw [nodes] at at_
  split at at_
  · exact absurd at_ (by simp)
  · exact at_

theorem removeControl_closed (closed : Closed [] fs) : Closed [] (removeControl system option fs) := by
  obtain ⟨place, notDir, nodes⟩ := removeControl_nodes system option fs
  intro q name nonempty isSome
  obtain ⟨node, at_⟩ := Option.isSome_iff_exists.mp isSome
  have dir := closed q name nonempty (by rw [removeControl_sub at_]; rfl)
  rw [List.nil_append] at dir ⊢
  rw [nodes, if_neg, dir]
  rintro rfl
  exact notDir dir

theorem removeControl_depth (depth : Depth [] fs fuel) : Depth [] (removeControl system option fs) fuel := by
  intro q isSome
  obtain ⟨node, at_⟩ := Option.isSome_iff_exists.mp isSome
  exact depth q (by rw [removeControl_sub at_]; rfl)

theorem restoreCleanBuild_ok (depth : Depth [] fs fuel)
    (run : restoreCleanBuild fuel system option manifest fs = .ok (manifest', fs')) :
    manifest' = skipFiles option manifest ∧ ∃ cleaned built,
      (manifest.targetList.map (cleanDataAt system manifest fs)).foldlM
        (cleanTarget fuel option manifest') (removeControl system option fs) = .ok cleaned ∧
      manifest'.pathList.foldlM (pathStep system option manifest') cleaned = .ok built ∧
      manifest'.linkList.foldlM (linkCreate system option) built = .ok fs' := by
  unfold restoreCleanBuild at run
  rcases @targetSteps_cases fuel system option manifest fs depth manifest.targetList [] with
    checked | ⟨e, refused⟩
  · rw [checked] at run
    simp only at run
    split at run
    · exact absurd run (by simp)
    · rename_i cleaned cleaning
      split at run
      · exact absurd run (by simp)
      · rename_i built building
        split at run
        · exact absurd run (by simp)
        · rename_i last linking
          cases run
          exact ⟨rfl, cleaned, built, cleaning, building, linking⟩
  · rw [refused] at run
    exact absurd run (by simp)

theorem linkCreate_ne_fuel (link : ManifestLink) : linkCreate system option fs link ≠ .error .fuel := by
  unfold linkCreate
  simp only
  split
  · simp
  · split <;> simp

theorem pathStep_ne_fuel (path : ManifestPath) :
    pathStep system option manifest fs path ≠ .error .fuel := by
  unfold pathStep
  simp only
  split
  · simp
  · split
    · exact linkCreate_ne_fuel _
    · split
      · simp
      · split <;> simp

end Run

/-! ## What is promised -/

section Result
variable {fuel : Nat} {system : System} {option : RestoreOption} {manifest manifest' : Manifest}
  {ignore : List Str} {start cleaned built fs fs' : FileSystem}

/-- What a restore is to find in place before it restores files. -/
structure Ready (system : System) (option : RestoreOption) (manifest : Manifest) (fs : FileSystem) :
    Prop where
  /-- An entry below a directory target is ignored or named with the matching kind. -/
  entries : ∀ c, DirTarget manifest system c → ∀ rest node, rest ≠ [] →
    fs.node (c.targetPath ++ rest) = some node →
    ignored (fileIgnore option manifest) c rest node = true ∨
      isNamed manifest (c.targetName ++ rest) node = true
  paths : ∀ path ∈ manifest.pathList, PathDone system option fs (parts path.name)
  links : ∀ link ∈ manifest.linkList, LinkDone system option fs link

/-- The targets of the second step are those of the manifest. -/
theorem surveyed_targets (wf : WellFormed system option manifest)
    (sub : ∀ q, fs.node q = none → start.node q = none) :
    Apart (manifest.targetList.map (cleanDataAt system manifest fs)) ∧
      Surveyed (manifest.targetList.map (cleanDataAt system manifest fs)) start := by
  constructor
  · intro c mem d mem' noFile isPrefix
    obtain ⟨target, memTarget, rfl⟩ := List.mem_map.mp mem
    obtain ⟨target', memTarget', rfl⟩ := List.mem_map.mp mem'
    exact wf.apart (cleanDataNew system manifest target) (List.mem_map_of_mem memTarget)
      (cleanDataNew system manifest target') (List.mem_map_of_mem memTarget') noFile isPrefix
  · intro c mem
    obtain ⟨target, memTarget, rfl⟩ := List.mem_map.mp mem
    constructor
    · have nonempty := wf.nonempty target memTarget
      simp [cleanDataAt, cleanDataNew, nonempty]
    · intro missing
      apply sub
      simpa [cleanDataAt] using missing

theorem Cleaning.named (cleaning : Cleaning fuel manifest ignore
      (manifest.targetList.map (cleanDataAt system manifest fs))
      (manifest.targetList.map (cleanDataAt system manifest fs)) start fs') :
    Named system manifest ignore fs' := by
  have clean : ∀ c, DirTarget manifest system c → fs'.node c.targetPath = some .dir ∧
      ∀ rest node, rest ≠ [] → fs'.node (c.targetPath ++ rest) = some node →
        keepRest manifest ignore c rest node = true := by
    rintro c ⟨target, mem, noFile, rfl⟩
    obtain ⟨dir, keeps⟩ := cleaning.clean _ (List.mem_map_of_mem mem) noFile
    refine ⟨dir, fun rest node nonempty at_ => ?_⟩
    rw [← keeps rest node nonempty at_]
    exact keepRest_congr rfl rfl rest node
  exact ⟨cleaning.closed, fun c isTarget => (clean c isTarget).1, fun c isTarget => (clean c isTarget).2⟩

/-- Cleaning puts nothing in the place of a path or a link. -/
theorem Cleaning.clear (cleaning : Cleaning fuel manifest ignore
      (manifest.targetList.map (cleanDataAt system manifest fs))
      (manifest.targetList.map (cleanDataAt system manifest fs)) start fs')
    (clear : Clear system manifest ignore start) : Clear system manifest ignore fs' := by
  have sub : ∀ c, DirTarget manifest system c → ∀ rest node, rest ≠ [] →
      fs'.node (c.targetPath ++ rest) = some node → start.node (c.targetPath ++ rest) = some node := by
    rintro c ⟨target, mem, noFile, rfl⟩
    exact cleaning.sub (cleanDataAt system manifest fs target) (List.mem_map_of_mem mem) noFile
  constructor
  · intro link mem c isTarget rest node nonempty isName at_
    exact clear.links link mem c isTarget rest node nonempty isName (sub c isTarget rest node nonempty at_)
  · intro name hasPath c isTarget rest node nonempty isName at_
    exact clear.paths name hasPath c isTarget rest node nonempty isName
      (sub c isTarget rest node nonempty at_)

theorem Cleaning.stays_named (wf : WellFormed system option manifest) (closed : Closed [] start)
    (cleaning : Cleaning fuel manifest ignore
      (manifest.targetList.map (cleanDataAt system manifest fs))
      (manifest.targetList.map (cleanDataAt system manifest fs)) start fs')
    {c : CleanData} (isTarget : DirTarget manifest system c) {rest : List Str} {node : Node Kind}
    (nonempty : rest ≠ [])
    (has : HasPath manifest (c.targetName ++ rest) ∨ HasLink manifest (c.targetName ++ rest))
    (at_ : start.node (c.targetPath ++ rest) = some node)
    (keeps : keepRest manifest ignore c rest node = true) :
    fs'.node (c.targetPath ++ rest) = some node := by
  have nonemptyPath : c.targetPath ≠ [] := by
    obtain ⟨target, mem, -, rfl⟩ := isTarget
    have nonempty := wf.nonempty target mem
    simp [cleanDataNew, nonempty]
  obtain ⟨target, mem, noFile, rfl⟩ := isTarget
  apply cleaning.stays _ (List.mem_map_of_mem mem) noFile rest node nonempty at_
  rw [kept_iff]
  intro k pos le
  by_cases last : k = rest.length
  · subst last
    rw [List.take_length]
    refine ⟨node, at_, ?_⟩
    rw [keepPath_append, ← keeps]
    exact keepRest_congr rfl rfl rest node
  · -- above is a directory, and the manifest has its path
    have split : rest.take k ++ rest.drop k = rest := List.take_append_drop k rest
    have above := @Closed.above _ _ _ []
      ((cleanDataNew system manifest target).targetPath ++ rest.take k) (rest.drop k) start closed
      (by simp [nonemptyPath]) (by
        apply List.ne_nil_of_length_pos
        rw [List.length_drop]
        omega)
      (by rw [List.nil_append, List.append_assoc, split, at_]; rfl)
    rw [List.nil_append] at above
    refine ⟨.dir, above, ?_⟩
    rw [keepPath_append, keepRest_of_ne (by simp)]
    apply pathFind_isSome.mpr
    have path := wf.parents _ (has.elim .inl (fun link => .inr (.inl link)))
      ((cleanDataNew system manifest target).targetName.length + k) (by omega)
      (by rw [List.length_append]; omega)
    rwa [List.take_length_add_append] at path

theorem parts_ne_nil (name : Str) : parts name ≠ [] := strLstNewSplit_ne_nil

section Ready
variable (wf : WellFormed system option manifest)
include wf

theorem target_of_pgData {target : ManifestTarget}
    (mem : target ∈ manifest.targetList) (noFile : target.file = none) {names : List Str}
    (isName : (cleanDataNew system manifest target).targetName = manifestTargetPgData :: names) :
    parts target.name = manifestTargetPgData :: names ∧ targetExtra manifest target = [] := by
  change parts target.name ++ targetExtra manifest target = manifestTargetPgData :: names at isName
  cases isParts : parts target.name with
  | nil => exact absurd isParts (parts_ne_nil target.name)
  | cons first rest =>
    rw [isParts, List.cons_append] at isName
    obtain ⟨rfl, isRest⟩ := List.cons.inj isName
    have extra := (wf.targetLinked target mem noFile rest isParts).1
    rw [extra, List.append_nil] at isRest
    exact ⟨by rw [isRest], extra⟩

theorem through_target (inv : Named system manifest ignore fs)
    (links : ∀ link ∈ manifest.linkList, LinkDone system option fs link) {c : CleanData}
    (isTarget : DirTarget manifest system c) {names : List Str}
    (isName : c.targetName = manifestTargetPgData :: names) :
    through system fs option.pgPath names = c.targetPath := by
  obtain ⟨target, mem, noFile, rfl⟩ := isTarget
  obtain ⟨isParts, extra⟩ := target_of_pgData wf mem noFile isName
  have path : (cleanDataNew system manifest target).targetPath = system.targetPath target := by
    simp only [cleanDataNew, extra, List.append_nil]
  rcases List.eq_nil_or_concat names with rfl | ⟨above, last, equal⟩
  · obtain ⟨base, ⟨target', mem', noFile', rfl⟩, baseName, basePath⟩ := wf.base
    obtain ⟨isParts', -⟩ := target_of_pgData wf mem' noFile' baseName
    obtain rfl := wf.unique target' mem' target mem (by rw [isParts, isParts'])
    rw [basePath]
    rfl
  · rw [List.concat_eq_append] at equal
    obtain ⟨hasLink, hasPath⟩ := (wf.targetLinked target mem noFile names isParts).2 (by simp [equal])
    obtain ⟨link, memLink, linkName⟩ := hasLink
    obtain ⟨target', mem', -, isParts', leads⟩ := wf.linked link memLink _ hasPath (.inl linkName.symm)
    obtain rfl := wf.unique target' mem' target mem isParts'
    obtain ⟨c, more, isTarget, nonempty, isLinkName, place⟩ := @link_located system option manifest
      ignore fs wf inv link memLink
    obtain ⟨destination, isDestination, at_⟩ := links link memLink
    rw [linkName, isParts, manifestPathPg_cons, equal, resolve_concat] at place at_
    rw [equal, through_concat, follow_of_link at_, place, List.dropLast_append_of_ne_nil nonempty,
      leads c isTarget more destination nonempty isLinkName isDestination, path]

theorem resolve_target (inv : Named system manifest ignore fs)
    (links : ∀ link ∈ manifest.linkList, LinkDone system option fs link) {c : CleanData}
    (isTarget : DirTarget manifest system c) {names rest : List Str} (nonempty : rest ≠ [])
    (isName : c.targetName = manifestTargetPgData :: names)
    (there : (fs.node (c.targetPath ++ rest)).isSome) :
    resolve system fs option.pgPath (names ++ rest) = c.targetPath ++ rest := by
  have nonemptyPath : c.targetPath ≠ [] := by
    obtain ⟨target, mem, -, rfl⟩ := isTarget
    have nonempty := wf.nonempty target mem
    simp [cleanDataNew, nonempty]
  rw [resolve_append nonempty, through_target wf inv links isTarget isName]
  apply resolve_plain
  intro k pos lt destination at_
  have split : rest.take k ++ rest.drop k = rest := List.take_append_drop k rest
  have above := @Closed.above _ _ _ [] (c.targetPath ++ rest.take k) (rest.drop k) fs inv.closed
    (by simp [nonemptyPath]) (by
      apply List.ne_nil_of_length_pos
      rw [List.length_drop]
      omega)
    (by rwa [List.nil_append, List.append_assoc, split])
  rw [List.nil_append, at_] at above
  exact absurd above (by simp)

/-- What is kept in the place of a link is not replaced by the link. -/
theorem clear_of_ready (inv : Named system manifest ignore fs')
    (stays : ∀ c, DirTarget manifest system c → ∀ rest node, rest ≠ [] →
      HasPath manifest (c.targetName ++ rest) ∨ HasLink manifest (c.targetName ++ rest) →
      start.node (c.targetPath ++ rest) = some node → keepRest manifest ignore c rest node = true →
      fs'.node (c.targetPath ++ rest) = some node)
    (ready : Ready system option manifest fs') : Clear system manifest ignore start := by
  constructor
  · intro link mem c isTarget rest node nonempty isName at_ keeps
    have stay := stays c isTarget rest node nonempty (.inr ⟨link, mem, isName.symm⟩) at_ keeps
    obtain ⟨destination, -, done⟩ := ready.links link mem
    obtain ⟨first, more, -, linkName, -⟩ := wf.linkNamed link mem
    -- the name of the target is the start of the name of the link
    cases isTargetName : c.targetName with
    | nil =>
      obtain ⟨target, -, -, rfl⟩ := isTarget
      have nonemptyName := parts_ne_nil target.name
      simp [cleanDataNew, nonemptyName] at isTargetName
    | cons head names =>
      rw [isTargetName, linkName, List.cons_append] at isName
      obtain ⟨rfl, isRest⟩ := List.cons.inj isName
      rw [linkName, manifestPathPg_cons, ← isRest,
        resolve_target wf inv ready.links isTarget nonempty isTargetName (by rw [stay]; rfl), stay] at done
      exact ⟨destination, Option.some.inj done⟩
  · intro name hasPath c isTarget rest node nonempty isName at_ keeps isFile
    subst isFile
    subst isName
    have stay := stays c isTarget rest _ nonempty (.inl hasPath) at_ keeps
    -- it is not a file of the manifest, so it is ignored, directly in the data directory
    rw [keepRest, Bool.or_eq_true] at keeps
    rcases keeps with isIgnored | named
    · unfold ignored at isIgnored
      split at isIgnored
      · rename_i name _
        rw [Bool.and_eq_true] at isIgnored
        obtain ⟨base, -⟩ := isIgnored
        have isTargetName : c.targetName = [manifestTargetPgData] := by
          obtain ⟨target, mem, noFile, rfl⟩ := isTarget
          have isParts : parts target.name = [manifestTargetPgData] := by simpa [cleanDataNew] using base
          simp [cleanDataNew, isParts, (wf.targetLinked target mem noFile [] isParts).1]
        obtain ⟨path, memPath, pathName⟩ := hasPath
        have done := ready.paths path memPath
        have root := through_target wf inv ready.links isTarget isTargetName
        rw [pathName, isTargetName, PathDone, List.singleton_append, manifestPathPg_cons] at done
        change fs'.node (follow system fs' (option.pgPath ++ [name])) = some .dir at done
        change option.pgPath = c.targetPath at root
        rw [root, follow_of_not_link (by rw [stay]; simp), stay] at done
        exact absurd done (by simp)
      · exact absurd isIgnored (by simp)
    · exact wf.pathNotFile _ hasPath (fileFind_isSome.mp named)

theorem cleaning_targets (closed : Closed [] fs) (depth : Depth [] fs fuel)
    (short : ∀ target ∈ manifest.targetList,
      (cleanDataNew system manifest target).targetPath.length < fuel) :
    (manifest.targetList.map (cleanDataAt system manifest fs)).foldlM (cleanTarget fuel option manifest)
        (removeControl system option fs) ≠ .error .fuel ∧
      ∀ cleaned, (manifest.targetList.map (cleanDataAt system manifest fs)).foldlM
          (cleanTarget fuel option manifest) (removeControl system option fs) = .ok cleaned →
        Cleaning fuel manifest (fileIgnore option manifest)
          (manifest.targetList.map (cleanDataAt system manifest fs))
          (manifest.targetList.map (cleanDataAt system manifest fs))
          (removeControl system option fs) cleaned := by
  have sub : ∀ q, fs.node q = none → (removeControl system option fs).node q = none := by
    intro q missing
    by_contra present
    obtain ⟨node, at_⟩ := Option.ne_none_iff_exists'.mp present
    rw [removeControl_sub at_] at missing
    exact absurd missing (by simp)
  obtain ⟨apart, surveyed⟩ := surveyed_targets wf sub
  apply cleaning_all apart surveyed (removeControl_closed closed) (removeControl_depth depth)
  intro c mem
  obtain ⟨target, memTarget, rfl⟩ := List.mem_map.mp mem
  exact short target memTarget

/-- Paths and links that are not in the way of others are made. -/
theorem ready_iff (closed : Closed [] start)
    (cleaning : Cleaning fuel manifest (fileIgnore option manifest)
      (manifest.targetList.map (cleanDataAt system manifest fs))
      (manifest.targetList.map (cleanDataAt system manifest fs)) start cleaned)
    (pathRun : manifest.pathList.foldlM (pathStep system option manifest) cleaned = .ok built)
    (linkRun : manifest.linkList.foldlM (linkCreate system option) built = .ok fs') :
    Ready system option manifest fs' ↔
      Clear system manifest (fileIgnore option manifest) start := by
  have pathSteps : Step system manifest (fileIgnore option manifest) cleaned built (fun fs =>
      ∀ path ∈ manifest.pathList, parts path.name ≠ [manifestTargetPgTblSpc] →
        PathDone system option fs (parts path.name)) := by
    apply steps_fold _ _ cleaning.named pathRun
    · exact fun path _ _ closed grows done notTblspc => (done notTblspc).stable closed grows
    · exact fun path mem _ _ inv run => pathStep_step wf inv mem run
  have linkSteps : Step system manifest (fileIgnore option manifest) built fs' (fun fs =>
      ∀ link ∈ manifest.linkList, LinkDone system option fs link) := by
    apply steps_fold _ _ pathSteps.named linkRun
    · exact fun link _ _ closed grows done => done.stable closed grows
    · exact fun link mem _ _ inv run => linkCreate_step wf inv mem run
  constructor
  · intro ready
    apply clear_of_ready wf linkSteps.named _ ready
    intro c isTarget rest node nonempty has at_ keeps
    have stay := cleaning.stays_named wf closed isTarget nonempty has at_ keeps
    exact linkSteps.grows _ _ (pathSteps.grows _ _ stay)
  · intro clear
    obtain ⟨clearBuilt, paths⟩ := pathSteps.clear (cleaning.clear clear)
    obtain ⟨-, links⟩ := linkSteps.clear clearBuilt
    have pathDone : ∀ name, HasPath manifest name → name ≠ [manifestTargetPgTblSpc] →
        PathDone system option fs' name := by
      rintro name ⟨path, mem, rfl⟩ notTblspc
      exact PathDone.stable pathSteps.named.closed linkSteps.grows (paths path mem notTblspc)
    constructor
    · intro c isTarget rest node nonempty at_
      have keeps := linkSteps.named.named c isTarget rest node nonempty at_
      rwa [keepRest, Bool.or_eq_true] at keeps
    · intro path mem
      by_cases tblspc : parts path.name = [manifestTargetPgTblSpc]
      · -- the path that stands for the one in the data directory
        have inData := pathDone _ (wf.tblspc ⟨path, mem, tblspc⟩) (by decide)
        rw [tblspc]
        rwa [PathDone, manifestPathPg_cons] at inData
      · exact pathDone _ ⟨path, mem, rfl⟩ tblspc
    · exact links

end Ready

/-- A restore that must not find anything is refused before it changes something. When it
goes well, what is to be in place is there exactly if nothing that cleaning keeps stood in
the place of a link, and no regular file that it keeps in the place of a path. -/
theorem restoreCleanBuild_ready_iff (wf : WellFormed system option manifest) (closed : Closed [] fs) :
    ∃ enough, ∀ fuel, enough ≤ fuel →
      restoreCleanBuild fuel system option manifest fs ≠ .error .fuel ∧
      (option.delta = false → option.force = false →
        (∃ target ∈ manifest.targetList,
          Occupied system option manifest fs (cleanDataNew system manifest target)) →
        ∃ e, restoreCleanBuild fuel system option manifest fs = .error (.error (e, fs))) ∧
      ∀ manifest' fs', restoreCleanBuild fuel system option manifest fs = .ok (manifest', fs') →
        manifest' = skipFiles option manifest ∧
        (Ready system option manifest' fs' ↔
          Clear system (skipFiles option manifest) (fileIgnore option manifest)
            (removeControl system option fs)) := by
  obtain ⟨depth, -, deep⟩ := exists_depth [] fs
  obtain ⟨bound, within⟩ := exists_bound
    (fun target => (cleanDataNew system manifest target).targetPath.length) manifest.targetList
  refine ⟨max depth (bound + 1), fun fuel enough => ?_⟩
  have deepEnough : Depth [] fs fuel := deep fuel (by omega)
  obtain ⟨files, skipped, -⟩ := skipFiles_eq option manifest
  have cleans := @cleaning_targets fuel system option (skipFiles option manifest) fs
    (wellFormed_skipFiles wf) closed deepEnough (by
      rw [skipped]
      intro target mem
      have short := within target mem
      exact Nat.lt_of_le_of_lt short (by omega))
  have sameTargets : (skipFiles option manifest).targetList.map
      (cleanDataAt system (skipFiles option manifest) fs) =
      manifest.targetList.map (cleanDataAt system manifest fs) := by
    rw [skipped]
    rfl
  have sameIgnore : fileIgnore option (skipFiles option manifest) = fileIgnore option manifest := by
    rw [skipped]
    rfl
  refine ⟨?_, ?_, ?_⟩
  · rw [sameTargets] at cleans
    unfold restoreCleanBuild
    rcases @targetSteps_cases fuel system option manifest fs deepEnough manifest.targetList [] with
      checked | ⟨e, refused⟩
    · rw [checked, List.nil_append]
      simp only
      split
      · rename_i e failed
        intro same
        cases same
        exact cleans.1 failed
      · split
        · rename_i e failed
          intro same
          cases same
          exact Effects.except_foldlM_ne (fun fs path => pathStep_ne_fuel path) _ _ failed
        · split
          · rename_i e failed
            intro same
            cases same
            exact Effects.except_foldlM_ne (fun fs link => linkCreate_ne_fuel link) _ _ failed
          · simp
    · rw [refused]
      simp
  · rintro noDelta noForce ⟨target, mem, occupied⟩
    have nonempty : (cleanDataNew system manifest target).targetPath ≠ [] := by
      have nonempty := wf.nonempty target mem
      simp [cleanDataNew, nonempty]
    obtain ⟨e, refused⟩ := @targetSteps_refuse fuel system option manifest fs closed deepEnough
      (by rw [noDelta, noForce]; rfl) _ _ mem nonempty occupied []
    exact ⟨e, by rw [restoreCleanBuild, refused]⟩
  · intro manifest' fs' run
    obtain ⟨rfl, cleaned, built, cleaning, building, linking⟩ := restoreCleanBuild_ok deepEnough run
    rw [← sameTargets] at cleaning
    refine ⟨rfl, ?_⟩
    have iff := ready_iff (wellFormed_skipFiles wf) (removeControl_closed closed)
      (cleans.2 cleaned cleaning) building linking
    rwa [sameIgnore] at iff

end Result

/-! ## A directory in the place of a link -/

def baseTarget : ManifestTarget := ⟨"pg_data".toList, .path, some "/pg".toList, none, 0, none⟩

def globalTarget : ManifestTarget := ⟨"pg_data/global".toList, .link, some "/global".toList, none, 0, none⟩

def controlFile : ManifestFile :=
  { name := "pg_data/global/pg_control".toList, size := 8192 }

/-- A cluster with its directory of the control file behind a link. -/
def globalManifest : Manifest where
  targetList := [baseTarget, globalTarget]
  pathList := [⟨"pg_data".toList, 0o700, none, none⟩, ⟨"pg_data/global".toList, 0o700, none, none⟩]
  fileList := [controlFile]
  linkList := [⟨"pg_data/global".toList, some "/global".toList, none, none⟩]

def globalSystem : System where
  targetPath target := if target.name = "pg_data".toList then ["pg".toList] else ["global".toList]
  leadsTo _ _ := ["global".toList]
  pathCheck _ := none

def cleanOption : RestoreOption := ⟨true, false, false, ["pg".toList]⟩

/-- The linked directory is in the data directory. -/
def directoryDisk : FileSystem := ⟨[(["pg".toList], .dir), (["pg".toList, "global".toList], .dir)]⟩

theorem globalManifest_path {name : List Str} : HasPath globalManifest name ↔
    name = [manifestTargetPgData] ∨ name = [manifestTargetPgData, pgPathGlobal] := by
  constructor
  · rintro ⟨path, mem, rfl⟩
    rcases List.mem_cons.mp mem with rfl | mem
    · exact .inl rfl
    · obtain rfl := List.mem_singleton.mp mem
      exact .inr rfl
  · rintro (rfl | rfl)
    · exact ⟨_, List.mem_cons_self, rfl⟩
    · exact ⟨_, List.mem_cons_of_mem _ List.mem_cons_self, rfl⟩

theorem globalManifest_link {name : List Str} (hasLink : HasLink globalManifest name) :
    name = [manifestTargetPgData, pgPathGlobal] := by
  obtain ⟨link, mem, rfl⟩ := hasLink
  obtain rfl := List.mem_singleton.mp mem
  rfl

theorem globalManifest_file {name : List Str} (hasFile : HasFile globalManifest name) :
    name = [manifestTargetPgData, pgPathGlobal, pgFilePgControl] := by
  obtain ⟨file, mem, rfl⟩ := hasFile
  obtain rfl := List.mem_singleton.mp mem
  rfl

theorem globalManifest_target {target : ManifestTarget} (mem : target ∈ globalManifest.targetList) :
    target = baseTarget ∨ target = globalTarget := by
  rcases List.mem_cons.mp mem with rfl | mem
  · exact .inl rfl
  · exact .inr (List.mem_singleton.mp mem)

theorem globalManifest_wellFormed :
    WellFormed globalSystem cleanOption globalManifest := by
  constructor
  case base =>
    exact ⟨cleanDataNew globalSystem globalManifest baseTarget,
      ⟨baseTarget, List.mem_cons_self, rfl, rfl⟩, rfl, rfl⟩
  case nonempty =>
    intro target mem
    rcases globalManifest_target mem with rfl | rfl <;> decide
  case apart =>
    intro c mem d mem' _ isPrefix
    obtain ⟨target, memTarget, rfl⟩ := List.mem_map.mp mem
    obtain ⟨target', memTarget', rfl⟩ := List.mem_map.mp mem'
    rcases globalManifest_target memTarget with rfl | rfl <;>
      rcases globalManifest_target memTarget' with rfl | rfl
    · exact ⟨rfl, rfl, rfl, rfl⟩
    · exact absurd isPrefix (by decide)
    · exact absurd isPrefix (by decide)
    · exact ⟨rfl, rfl, rfl, rfl⟩
  case unique =>
    intro target mem target' mem' same
    rcases globalManifest_target mem with rfl | rfl <;>
      rcases globalManifest_target mem' with rfl | rfl
    · rfl
    · exact absurd same (by decide)
    · exact absurd same (by decide)
    · rfl
  case parents =>
    intro name has k pos lt
    have isName : name = [manifestTargetPgData] ∨ name = [manifestTargetPgData, pgPathGlobal] ∨
        name = [manifestTargetPgData, pgPathGlobal, pgFilePgControl] := by
      rcases has with path | link | file
      · exact (globalManifest_path.mp path).imp_right .inl
      · exact .inr (.inl (globalManifest_link link))
      · exact .inr (.inr (globalManifest_file file))
    rw [globalManifest_path]
    rcases isName with rfl | rfl | rfl
    · simp only [List.length_singleton] at lt
      omega
    · simp only [List.length_cons, List.length_nil] at lt
      obtain rfl : k = 1 := by omega
      exact .inl rfl
    · simp only [List.length_cons, List.length_nil] at lt
      obtain rfl | rfl : k = 1 ∨ k = 2 := by omega
      · exact .inl rfl
      · exact .inr rfl
  case pathNotFile =>
    intro name path file
    rw [globalManifest_file file] at path
    rcases globalManifest_path.mp path with same | same <;> exact absurd same (by decide)
  case linkUnique =>
    intro link mem link' mem' _
    rw [List.mem_singleton.mp mem, List.mem_singleton.mp mem']
  case linkNamed =>
    intro link mem
    obtain rfl := List.mem_singleton.mp mem
    exact ⟨pgPathGlobal, [], "/global".toList, rfl, rfl⟩
  case pathNamed =>
    intro name hasPath
    rcases globalManifest_path.mp hasPath with rfl | rfl
    · exact .inr (.inl ⟨[], rfl⟩)
    · exact .inr (.inl ⟨[pgPathGlobal], rfl⟩)
  case tblspc =>
    intro hasPath
    rcases globalManifest_path.mp hasPath with same | same <;> exact absurd same (by decide)
  case targetLinked =>
    intro target mem _ rest isName
    rcases globalManifest_target mem with rfl | rfl
    · cases isName
      exact ⟨rfl, fun nonempty => absurd rfl nonempty⟩
    · exact ⟨rfl, fun _ => ⟨⟨_, List.mem_cons_self, rfl⟩, globalManifest_path.mpr (.inr rfl)⟩⟩
  case linked =>
    intro link mem name hasPath behind
    obtain rfl := List.mem_singleton.mp mem
    rcases behind with rfl | ⟨⟨rest, rfl⟩, -⟩
    · exact ⟨globalTarget, List.mem_cons_of_mem _ List.mem_cons_self, rfl, rfl,
        fun _ _ _ _ _ _ _ => rfl⟩
    · rcases globalManifest_path.mp hasPath with same | same <;>
        exact absurd (List.cons.inj same).1 (by decide)

theorem directoryDisk_closed : Closed [] directoryDisk := by
  intro q name nonempty isSome
  obtain ⟨e, mem, equal⟩ := lookup_isSome.mp isSome
  rcases List.mem_cons.mp mem with rfl | mem
  · cases q with
    | nil => exact absurd rfl nonempty
    | cons first rest => simp at equal
  · obtain rfl := List.mem_singleton.mp mem
    have same : ["pg".toList] ++ ["global".toList] = q ++ [name] := equal
    obtain ⟨rfl, -⟩ := List.append_inj' same rfl
    rfl

/-- The directory is kept since the manifest has a path of this name, and then the link is
not made since something is there. -/
theorem restoreCleanBuild_directory_for_link :
    WellFormed globalSystem cleanOption globalManifest ∧ Closed [] directoryDisk ∧
      ∃ manifest' fs', restoreCleanBuild 4 globalSystem cleanOption globalManifest directoryDisk =
          .ok (manifest', fs') ∧
        fs'.node ["pg".toList, "global".toList] = some .dir ∧
        ¬ ∀ link ∈ manifest'.linkList, LinkDone globalSystem cleanOption fs' link := by
  refine ⟨globalManifest_wellFormed, directoryDisk_closed, globalManifest, _, rfl, rfl, ?_⟩
  intro links
  obtain ⟨destination, -, at_⟩ := links _ List.mem_cons_self
  have isDir : some Node.dir = some (Node.file (Kind.link destination)) := at_
  cases isDir

/-- An empty disk is clear. -/
theorem restoreCleanBuild_ready_empty :
    WellFormed globalSystem cleanOption globalManifest ∧ Closed [] (⟨[]⟩ : FileSystem) ∧
      ∃ enough, ∀ fuel, enough ≤ fuel → ∀ manifest' fs',
        restoreCleanBuild fuel globalSystem cleanOption globalManifest ⟨[]⟩ = .ok (manifest', fs') →
        Ready globalSystem cleanOption manifest' fs' := by
  have closed : Closed [] (⟨[]⟩ : FileSystem) := fun q name _ isSome => nomatch isSome
  refine ⟨globalManifest_wellFormed, closed, ?_⟩
  obtain ⟨enough, holds⟩ := restoreCleanBuild_ready_iff globalManifest_wellFormed closed
  refine ⟨enough, fun fuel le manifest' fs' run => ?_⟩
  obtain ⟨-, -, built⟩ := holds fuel le
  have empty : ∀ q, (removeControl globalSystem cleanOption ⟨[]⟩).node q = none := fun q => rfl
  apply (built manifest' fs' run).2.mpr
  constructor
  · intro link _ c _ rest node _ _ at_
    rw [empty] at at_
    cases at_
  · intro name _ c _ rest node _ _ at_
    rw [empty] at at_
    cases at_

end RestoreClean
