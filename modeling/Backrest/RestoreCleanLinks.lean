import Backrest.RestoreCleanRefuse

/-!
# Paths and links of a restore

The places that names of the manifest stand for. A place is looked for through
directories and links; while everything below the targets is named by the
manifest, a name is found below the target it belongs to.
-/

namespace RestoreClean

open Text BackupManifest FileTree TreeWalk

/-! ## Manifests -/

section Names
variable (manifest : Manifest)

def HasPath (name : List Str) : Prop := ∃ path ∈ manifest.pathList, parts path.name = name

def HasFile (name : List Str) : Prop := ∃ file ∈ manifest.fileList, parts file.name = name

def HasLink (name : List Str) : Prop := ∃ link ∈ manifest.linkList, parts link.name = name

/-- A target that is a directory, as the restore sees it. -/
def DirTarget (system : System) (c : CleanData) : Prop :=
  ∃ target ∈ manifest.targetList, target.file = none ∧ c = cleanDataNew system manifest target

def IsTablespace (target : ManifestTarget) : Prop :=
  target.file = none ∧ ∃ id, parts target.name = [manifestTargetPgTblSpc, id] ∧
    HasLink manifest (manifestTargetPgData :: parts target.name) ∧
    ¬ HasPath manifest (manifestTargetPgData :: parts target.name)

end Names

/-- What holds of a manifest that was mapped and whose links were checked. -/
structure WellFormed (system : System) (option : RestoreOption) (manifest : Manifest) : Prop where
  /-- The data directory is a target. -/
  base : ∃ c, DirTarget manifest system c ∧ c.targetName = [manifestTargetPgData] ∧
    c.targetPath = option.pgPath
  nonempty : ∀ target ∈ manifest.targetList, system.targetPath target ≠ []
  /-- No target is below a directory target. -/
  apart : Apart (manifest.targetList.map (cleanDataNew system manifest))
  unique : ∀ target ∈ manifest.targetList, ∀ target' ∈ manifest.targetList,
    parts target.name = parts target'.name → target = target'
  /-- Every parent path is there. -/
  parents : ∀ name, HasPath manifest name ∨ HasLink manifest name ∨ HasFile manifest name →
    ∀ k, 0 < k → k < name.length → HasPath manifest (name.take k)
  pathNotFile : ∀ name, HasPath manifest name → ¬ HasFile manifest name
  linkUnique : ∀ link ∈ manifest.linkList, ∀ link' ∈ manifest.linkList,
    parts link.name = parts link'.name → link = link'
  linkNamed : ∀ link ∈ manifest.linkList, ∃ first rest destination,
    parts link.name = manifestTargetPgData :: first :: rest ∧ link.destination = some destination
  /-- A path is in the data directory or in a tablespace. -/
  pathNamed : ∀ name, HasPath manifest name → name = [manifestTargetPgTblSpc] ∨
    (∃ rest, name = manifestTargetPgData :: rest) ∨
    ∃ target ∈ manifest.targetList, IsTablespace manifest target ∧ (name = parts target.name ∨
      ∃ rest, name = parts target.name ++ targetExtra manifest target ++ rest)
  tblspc : HasPath manifest [manifestTargetPgTblSpc] →
    HasPath manifest [manifestTargetPgData, manifestTargetPgTblSpc]
  /-- A directory target in the data directory is behind a link. -/
  targetLinked : ∀ target ∈ manifest.targetList, target.file = none →
    (∀ rest, parts target.name = manifestTargetPgData :: rest →
      targetExtra manifest target = [] ∧ (rest ≠ [] → HasLink manifest (parts target.name) ∧
        HasPath manifest (parts target.name)))
  /-- The link of a path leads to the target of that name. -/
  linked : ∀ link ∈ manifest.linkList, ∀ name, HasPath manifest name →
    (name = parts link.name ∨
      (∃ rest, name = manifestTargetPgTblSpc :: rest) ∧ manifestTargetPgData :: name = parts link.name) →
    ∃ target ∈ manifest.targetList, target.file = none ∧ parts target.name = name ∧
      ∀ c, DirTarget manifest system c → ∀ rest destination, rest ≠ [] →
        c.targetName ++ rest = parts link.name → link.destination = some destination →
        system.leadsTo (c.targetPath ++ rest.dropLast) destination = system.targetPath target

section Find
variable {manifest : Manifest} {name : List Str}

theorem pathFind_isSome : (manifestPathFindDefault manifest name).isSome ↔ HasPath manifest name := by
  rw [manifestPathFindDefault, List.find?_isSome]
  simp [HasPath]

theorem fileFind_isSome : (fileFindDefault manifest name).isSome ↔ HasFile manifest name := by
  rw [fileFindDefault, List.find?_isSome]
  simp [HasFile]

theorem linkFind_some {link : ManifestLink} (found : manifestLinkFindDefault manifest name = some link) :
    link ∈ manifest.linkList ∧ parts link.name = name :=
  ⟨List.mem_of_find?_eq_some found, by simpa using List.find?_some found⟩

theorem linkFind_none : manifestLinkFindDefault manifest name = none ↔ ¬ HasLink manifest name := by
  rw [manifestLinkFindDefault, List.find?_eq_none]
  simp [HasLink]

theorem isNamed_link {destination : Str} (named : isNamed manifest name (.file (.link destination)) = true) :
    ∃ link ∈ manifest.linkList, parts link.name = name ∧ link.destination = some destination := by
  simp only [isNamed] at named
  split at named
  · rename_i link found
    exact ⟨link, (linkFind_some found).1, (linkFind_some found).2, by simpa using named⟩
  · exact absurd named (by decide)

/-- Only regular files are ignored. -/
theorem keepRest_of_ne {ignore : List Str} {c : CleanData} {rest : List Str} {node : Node Kind}
    (notFile : node ≠ .file .file) :
    keepRest manifest ignore c rest node = isNamed manifest (c.targetName ++ rest) node := by
  rw [keepRest]
  have notIgnored : ignored ignore c rest node = false := by
    unfold ignored
    split
    · exact absurd rfl notFile
    · rfl
  rw [notIgnored, Bool.false_or]

end Find

/-! ## Where names are found -/

/-- Everything below the targets is named, and the target directories are there. -/
structure Named (system : System) (manifest : Manifest) (ignore : List Str) (fs : FileSystem) :
    Prop where
  closed : Closed [] fs
  roots : ∀ c, DirTarget manifest system c → fs.node c.targetPath = some .dir
  named : ∀ c, DirTarget manifest system c → ∀ rest node, rest ≠ [] →
    fs.node (c.targetPath ++ rest) = some node → keepRest manifest ignore c rest node = true

structure Linked (system : System) (manifest : Manifest) (fs : FileSystem) : Prop where
  closed : Closed [] fs
  roots : ∀ c, DirTarget manifest system c → fs.node c.targetPath = some .dir
  link : ∀ c, DirTarget manifest system c → ∀ rest destination, rest ≠ [] →
    fs.node (c.targetPath ++ rest) = some (.file (.link destination)) →
    ∃ link ∈ manifest.linkList, parts link.name = c.targetName ++ rest ∧
      link.destination = some destination
  /-- No directory stands in the place of the link of a tablespace. -/
  tablespace : ∀ target ∈ manifest.targetList, IsTablespace manifest target →
    ∀ c, DirTarget manifest system c → ∀ rest, rest ≠ [] →
    c.targetName ++ rest = manifestTargetPgData :: parts target.name →
    fs.node (c.targetPath ++ rest) ≠ some .dir

section Place
variable {system : System} {option : RestoreOption} {manifest : Manifest} {ignore : List Str}
  {fs fs' : FileSystem}

theorem through_concat (place names : List Str) (name : Str) :
    through system fs place (names ++ [name]) =
      follow system fs (through system fs place names ++ [name]) := by
  rw [through, List.foldl_append]
  rfl

theorem through_append (place names more : List Str) :
    through system fs place (names ++ more) =
      through system fs (through system fs place names) more := by
  rw [through, List.foldl_append]
  rfl

theorem resolve_concat (place names : List Str) (name : Str) :
    resolve system fs place (names ++ [name]) = through system fs place names ++ [name] := by
  simp [resolve]

variable {place names : List Str}

theorem follow_of_link {destination : Str} (at_ : fs.node place = some (.file (.link destination))) :
    follow system fs place = system.leadsTo place.dropLast destination := by
  rw [follow, at_]

theorem follow_of_not_link
    (notLink : ∀ destination, fs.node place ≠ some (.file (.link destination))) :
    follow system fs place = place := by
  unfold follow
  split
  · rename_i destination at_
    exact absurd at_ (notLink destination)
  · rfl

theorem Named.link (inv : Named system manifest ignore fs) {c : CleanData}
    (isTarget : DirTarget manifest system c) {rest : List Str} {destination : Str} (nonempty : rest ≠ [])
    (at_ : fs.node (c.targetPath ++ rest) = some (.file (.link destination))) :
    ∃ link ∈ manifest.linkList, parts link.name = c.targetName ++ rest ∧
      link.destination = some destination := by
  have keeps := inv.named c isTarget rest _ nonempty at_
  rw [keepRest_of_ne (by simp)] at keeps
  exact isNamed_link keeps

theorem Named.linked (inv : Named system manifest ignore fs) : Linked system manifest fs where
  closed := inv.closed
  roots := inv.roots
  link := fun _ isTarget _ _ nonempty at_ => inv.link isTarget nonempty at_
  tablespace := by
    rintro target - ⟨-, -, -, -, notPath⟩ c isTarget rest nonempty isName at_
    have keeps := inv.named c isTarget rest _ nonempty at_
    rw [keepRest_of_ne (by simp), isName] at keeps
    exact notPath (pathFind_isSome.mp keeps)

theorem through_located (wf : WellFormed system option manifest)
    (inv : Linked system manifest fs) {names : List Str}
    (paths : ∀ k, 0 < k → k ≤ names.length →
      HasPath manifest (manifestTargetPgData :: names.take k)) :
    ∃ c more, DirTarget manifest system c ∧ c.targetName ++ more = manifestTargetPgData :: names ∧
      through system fs option.pgPath names = c.targetPath ++ more := by
  induction names using List.reverseRecOn with
  | nil =>
    obtain ⟨c, isTarget, name, path⟩ := wf.base
    exact ⟨c, [], isTarget, by rw [name]; rfl, by rw [path, List.append_nil]; rfl⟩
  | append_singleton names name ih =>
    obtain ⟨c, more, isTarget, isName, place⟩ := ih (by
      intro k pos le
      have path := paths k pos (by rw [List.length_append]; omega)
      rwa [List.take_append_of_le_length le] at path)
    have isName' : c.targetName ++ (more ++ [name]) = manifestTargetPgData :: (names ++ [name]) := by
      rw [← List.append_assoc, isName]
      rfl
    rw [through_concat, place, List.append_assoc]
    by_cases isLink : ∃ destination,
        fs.node (c.targetPath ++ (more ++ [name])) = some (.file (.link destination))
    · obtain ⟨destination, at_⟩ := isLink
      obtain ⟨link, mem, linkName, isDestination⟩ := inv.link c isTarget _ destination (by simp) at_
      have hasPath : HasPath manifest (manifestTargetPgData :: (names ++ [name])) := by
        have path := paths (names ++ [name]).length (by simp) (Nat.le_refl _)
        rwa [List.take_length] at path
      obtain ⟨target, memTarget, noFile, isParts, leads⟩ := wf.linked link mem _ hasPath
        (.inl (by rw [linkName, isName']))
      have extra := (wf.targetLinked target memTarget noFile _ isParts).1
      refine ⟨cleanDataNew system manifest target, [], ⟨target, memTarget, noFile, rfl⟩, ?_, ?_⟩
      · simp only [cleanDataNew, extra, isParts, List.append_nil]
      · rw [follow_of_link at_, List.dropLast_append_of_ne_nil (by simp),
          leads c isTarget _ destination (by simp) linkName.symm isDestination]
        simp only [cleanDataNew, extra, List.append_nil]
    · refine ⟨c, more ++ [name], isTarget, isName', follow_of_not_link ?_⟩
      intro destination at_
      exact isLink ⟨destination, at_⟩

theorem resolve_located (wf : WellFormed system option manifest)
    (inv : Linked system manifest fs) {names : List Str} (nonempty : names ≠ [])
    (paths : ∀ k, 0 < k → k < names.length →
      HasPath manifest (manifestTargetPgData :: names.take k)) :
    ∃ c more, DirTarget manifest system c ∧ more ≠ [] ∧
      c.targetName ++ more = manifestTargetPgData :: names ∧
      resolve system fs option.pgPath names = c.targetPath ++ more := by
  obtain ⟨names, name, rfl⟩ := List.eq_nil_or_concat names |>.resolve_left nonempty
  rw [List.concat_eq_append] at *
  obtain ⟨c, more, isTarget, isName, place⟩ := @through_located system option manifest fs wf inv
    names (by
      intro k pos le
      have path := paths k pos (by rw [List.length_append, List.length_singleton]; omega)
      rwa [List.take_append_of_le_length le] at path)
  refine ⟨c, more ++ [name], isTarget, by simp, ?_, ?_⟩
  · rw [← List.append_assoc, isName]
    rfl
  · rw [resolve_concat, place, List.append_assoc]

theorem isDir_iff :
    isDir fs place = true ↔ place = [] ∨ fs.node place = some .dir := by
  unfold isDir
  split
  · simp
  · simp [*]
  · rename_i notNil notDir
    simp only [Bool.false_eq_true, false_iff, not_or]
    exact ⟨notNil, notDir⟩

/-- Without links on the way a path is what it says. -/
theorem through_plain
    (plain : ∀ k, 0 < k → k ≤ names.length → ∀ destination,
      fs.node (place ++ names.take k) ≠ some (.file (.link destination))) :
    through system fs place names = place ++ names := by
  induction names using List.reverseRecOn with
  | nil => rw [List.append_nil]; rfl
  | append_singleton names name ih =>
    rw [through_concat, ih, List.append_assoc]
    · apply follow_of_not_link
      have last := plain (names ++ [name]).length (by simp) (Nat.le_refl _)
      rwa [List.take_length] at last
    · intro k pos le
      have here := plain k pos (by rw [List.length_append]; omega)
      rwa [List.take_append_of_le_length le] at here

theorem resolve_plain
    (plain : ∀ k, 0 < k → k < names.length → ∀ destination,
      fs.node (place ++ names.take k) ≠ some (.file (.link destination))) :
    resolve system fs place names = place ++ names := by
  rcases List.eq_nil_or_concat names with rfl | ⟨names, name, rfl⟩
  · rw [List.append_nil]
    rfl
  · rw [List.concat_eq_append] at *
    rw [resolve_concat, through_plain, List.append_assoc]
    intro k pos le
    have here := plain k pos (by rw [List.length_append, List.length_singleton]; omega)
    rwa [List.take_append_of_le_length le] at here

theorem resolve_append {more : List Str} (nonempty : more ≠ []) :
    resolve system fs place (names ++ more) =
      resolve system fs (through system fs place names) more := by
  obtain ⟨more, last, rfl⟩ := List.eq_nil_or_concat more |>.resolve_left nonempty
  rw [List.concat_eq_append, ← List.append_assoc, resolve_concat, resolve_concat, through_append]

theorem pgData_ne_pgTblSpc : manifestTargetPgData ≠ manifestTargetPgTblSpc := by decide

theorem Linked.not_link_in_tablespace (wf : WellFormed system option manifest)
    (inv : Linked system manifest fs) {c : CleanData} (isTarget : DirTarget manifest system c)
    {more : List Str} (isName : c.targetName = manifestTargetPgTblSpc :: more) {rest : List Str}
    (nonempty : rest ≠ []) (destination : Str) :
    fs.node (c.targetPath ++ rest) ≠ some (.file (.link destination)) := by
  intro at_
  obtain ⟨link, mem, linkName, -⟩ := inv.link c isTarget rest destination nonempty at_
  obtain ⟨first, others, _, isPgData, -⟩ := wf.linkNamed link mem
  rw [linkName, isName, List.cons_append] at isPgData
  exact pgData_ne_pgTblSpc (List.cons.inj isPgData).1.symm

theorem targetExtra_length (target : ManifestTarget) : (targetExtra manifest target).length ≤ 1 := by
  unfold targetExtra
  split
  · cases pgTablespaceId manifest.data.pgVersion manifest.data.pgCatalogVersion with
    | none => simp
    | some _ => simp
  · simp

/-- A path below the root of a tablespace is found below its target. -/
theorem resolve_in_tablespace (wf : WellFormed system option manifest)
    (inv : Linked system manifest fs) {target : ManifestTarget}
    (mem : target ∈ manifest.targetList) (tablespace : IsTablespace manifest target)
    (rest : List Str) :
    resolve system fs (system.targetPath target) (targetExtra manifest target ++ rest) =
      (cleanDataNew system manifest target).targetPath ++ rest := by
  obtain ⟨noFile, id, isParts, -⟩ := tablespace
  have isTarget : DirTarget manifest system (cleanDataNew system manifest target) :=
    ⟨target, mem, noFile, rfl⟩
  have short := @targetExtra_length manifest target
  rw [resolve_plain, ← List.append_assoc]
  · rfl
  · intro k pos lt destination
    by_cases inside : (targetExtra manifest target).length < k
    · have split : system.targetPath target ++ (targetExtra manifest target ++ rest).take k =
          (cleanDataNew system manifest target).targetPath ++
            rest.take (k - (targetExtra manifest target).length) := by
        rw [List.take_append, List.take_of_length_le (by omega), ← List.append_assoc]
        rfl
      rw [split]
      apply @Linked.not_link_in_tablespace system option manifest fs wf inv _ isTarget
        (id :: targetExtra manifest target)
      · simp [cleanDataNew, isParts]
      · rw [List.length_append] at lt
        apply List.ne_nil_of_length_pos
        rw [List.length_take]
        omega
    · -- the directory of the target itself
      have whole : (targetExtra manifest target ++ rest).take k = targetExtra manifest target := by
        rw [List.take_append_of_le_length (by omega), List.take_of_length_le (by omega)]
      rw [whole]
      have root := inv.roots _ isTarget
      change fs.node (system.targetPath target ++ targetExtra manifest target) = some .dir at root
      rw [root]
      simp

/-- A name of a tablespace that can be looked for is found below its target. -/
theorem tablespace_located (wf : WellFormed system option manifest)
    (inv : Linked system manifest fs) {target : ManifestTarget}
    (mem : target ∈ manifest.targetList) (tablespace : IsTablespace manifest target)
    {rest : List Str} (nonempty : targetExtra manifest target ++ rest ≠ [])
    (has : HasPath manifest (parts target.name ++ (targetExtra manifest target ++ rest)) ∨
      HasLink manifest (parts target.name ++ (targetExtra manifest target ++ rest)) ∨
      HasFile manifest (parts target.name ++ (targetExtra manifest target ++ rest)))
    (possible : (fs.node (resolve system fs option.pgPath
        (parts target.name ++ (targetExtra manifest target ++ rest)))).isSome ∨
      isDir fs (resolve system fs option.pgPath
        (parts target.name ++ (targetExtra manifest target ++ rest))).dropLast = true) :
    resolve system fs option.pgPath (parts target.name ++ (targetExtra manifest target ++ rest)) =
      (cleanDataNew system manifest target).targetPath ++ rest := by
  have tablespace' := tablespace
  obtain ⟨noFile, id, isParts, -, -⟩ := tablespace'
  have long : 2 < (parts target.name ++ (targetExtra manifest target ++ rest)).length := by
    have pos := List.length_pos_iff.mpr nonempty
    rw [isParts, List.length_append]
    simp only [List.length_cons, List.length_nil]
    omega
  have above : HasPath manifest [manifestTargetPgTblSpc] := by
    have path := wf.parents _ has 1 (by omega) (by omega)
    rwa [isParts] at path
  have rootPath : HasPath manifest (parts target.name) := by
    have path := wf.parents _ has 2 (by omega) long
    rw [isParts] at path ⊢
    exact path
  obtain ⟨c, more, isTarget, isName, place⟩ := @through_located system option manifest fs wf inv
    [manifestTargetPgTblSpc] (by
      intro k pos le
      obtain rfl : k = 1 := by
        simp only [List.length_singleton] at le
        omega
      exact wf.tblspc above)
  have linkName : c.targetName ++ (more ++ [id]) = manifestTargetPgData :: parts target.name := by
    rw [← List.append_assoc, isName, isParts]
    rfl
  have toRoot : through system fs option.pgPath (parts target.name) =
      follow system fs (c.targetPath ++ (more ++ [id])) := by
    have two : parts target.name = [manifestTargetPgTblSpc] ++ [id] := isParts
    rw [two, through_concat, place, List.append_assoc]
  rw [resolve_append nonempty, toRoot] at possible ⊢
  by_cases isLink : ∃ destination,
      fs.node (c.targetPath ++ (more ++ [id])) = some (.file (.link destination))
  · obtain ⟨destination, at_⟩ := isLink
    obtain ⟨link, memLink, isLinkName, isDestination⟩ :=
      inv.link c isTarget _ destination (by simp) at_
    obtain ⟨target', memTarget', -, isParts', leads⟩ := wf.linked link memLink (parts target.name)
      rootPath (.inr ⟨⟨[id], isParts⟩, by rw [isLinkName, linkName]⟩)
    obtain rfl := wf.unique target' memTarget' target mem isParts'
    rw [follow_of_link at_, List.dropLast_append_of_ne_nil (by simp),
      leads c isTarget _ destination (by simp) isLinkName.symm isDestination]
    exact resolve_in_tablespace wf inv mem tablespace rest
  · -- what is not a link there is not a directory either, so that nothing can be below it
    exfalso
    have notLink : ∀ destination,
        fs.node (c.targetPath ++ (more ++ [id])) ≠ some (.file (.link destination)) :=
      fun destination at_ => isLink ⟨destination, at_⟩
    have notDir : fs.node (c.targetPath ++ (more ++ [id])) ≠ some .dir :=
      inv.tablespace target mem tablespace c isTarget _ (by simp) linkName
    have empty : ∀ below, below ≠ [] → fs.node (c.targetPath ++ (more ++ [id]) ++ below) = none := by
      intro below nonemptyBelow
      by_contra present
      have dir := @Closed.above _ _ _ [] (c.targetPath ++ (more ++ [id])) below fs inv.closed (by simp)
        nonemptyBelow (by rw [List.nil_append]; exact Option.isSome_iff_ne_none.mpr present)
      rw [List.nil_append] at dir
      exact notDir dir
    rw [follow_of_not_link notLink, resolve_plain] at possible
    · rcases possible with present | isDirectory
      · rw [empty _ nonempty] at present
        exact absurd present (by simp)
      · rw [List.dropLast_append_of_ne_nil nonempty] at isDirectory
        rcases isDir_iff.mp isDirectory with nil | dir
        · simp at nil
        · by_cases here : (targetExtra manifest target ++ rest).dropLast = []
          · rw [here, List.append_nil] at dir
            exact notDir dir
          · rw [empty _ here] at dir
            exact absurd dir (by simp)
    · intro k pos lt destination
      rw [empty _ (by
        apply List.ne_nil_of_length_pos
        rw [List.length_take]
        omega)]
      simp

/-! ## A file system that grows -/

def Extends (fs fs' : FileSystem) : Prop := ∀ q node, fs.node q = some node → fs'.node q = some node

theorem isDir_of_isSome (closed : Closed [] fs) {name : Str}
    (there : (fs.node (place ++ [name])).isSome) : isDir fs place = true := by
  rw [isDir_iff]
  by_cases root : place = []
  · exact .inl root
  · exact .inr (closed place name root there)

theorem through_stable (closed : Closed [] fs) (grows : Extends fs fs')
    (found : isDir fs (through system fs place names) = true) :
    through system fs' place names = through system fs place names := by
  induction names using List.reverseRecOn with
  | nil => rfl
  | append_singleton names name ih =>
    rw [through_concat] at found ⊢
    rw [through_concat]
    by_cases isLink : ∃ destination, fs.node (through system fs place names ++ [name]) =
        some (.file (.link destination))
    · obtain ⟨destination, at_⟩ := isLink
      rw [ih (isDir_of_isSome closed (by rw [at_]; rfl)), follow_of_link at_,
        follow_of_link (grows _ _ at_)]
    · have notLink : ∀ destination, fs.node (through system fs place names ++ [name]) ≠
          some (.file (.link destination)) := fun destination at_ => isLink ⟨destination, at_⟩
      rw [follow_of_not_link notLink] at found ⊢
      have dir : fs.node (through system fs place names ++ [name]) = some .dir := by
        rcases isDir_iff.mp found with nil | dir
        · simp at nil
        · exact dir
      rw [ih (isDir_of_isSome closed (by rw [dir]; rfl)), follow_of_not_link]
      intro destination at_
      rw [grows _ _ dir] at at_
      exact absurd at_ (by simp)

theorem resolve_stable (closed : Closed [] fs) (grows : Extends fs fs') {place names : List Str}
    (possible : names = [] ∨ isDir fs (resolve system fs place names).dropLast = true) :
    resolve system fs' place names = resolve system fs place names := by
  rcases List.eq_nil_or_concat names with rfl | ⟨names, name, rfl⟩
  · rfl
  · rw [List.concat_eq_append] at *
    rw [resolve_concat, resolve_concat]
    rcases possible with nil | found
    · simp at nil
    · rw [resolve_concat, List.dropLast_concat] at found
      rw [through_stable closed grows found]

/-- What stands at the end of a path, if it is not a link, is where the path leads. -/
theorem through_of_dir (dir : fs.node (resolve system fs place names) = some .dir) :
    through system fs place names = resolve system fs place names := by
  rcases List.eq_nil_or_concat names with rfl | ⟨names, name, rfl⟩
  · rfl
  · rw [List.concat_eq_append] at *
    rw [resolve_concat] at dir ⊢
    rw [through_concat, follow_of_not_link]
    intro destination at_
    rw [dir] at at_
    exact absurd at_ (by simp)

end Place

end RestoreClean
