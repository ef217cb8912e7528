import Backrest.RestoreCleanLinks

/-!
# What a restore makes

Paths and links that are missing are made after cleaning. Something of another
kind that cleaning keeps in the place of a link stays there, and the link is not
made.
-/

namespace RestoreClean

open Text BackupManifest FileTree TreeWalk

section Steps
variable {system : System} {option : RestoreOption} {manifest : Manifest} {ignore : List Str}
  {fs fs' : FileSystem}

structure Clear (system : System) (manifest : Manifest) (ignore : List Str) (fs : FileSystem) :
    Prop where
  links : ∀ link ∈ manifest.linkList, ∀ c, DirTarget manifest system c → ∀ rest node, rest ≠ [] →
    c.targetName ++ rest = parts link.name → fs.node (c.targetPath ++ rest) = some node →
    keepRest manifest ignore c rest node = true → ∃ destination, node = .file (.link destination)
  paths : ∀ name, HasPath manifest name → ∀ c, DirTarget manifest system c → ∀ rest node,
    rest ≠ [] → c.targetName ++ rest = name → fs.node (c.targetPath ++ rest) = some node →
    keepRest manifest ignore c rest node = true → node ≠ .file .file

/-- A link stands where its name says, with the destination of the manifest. -/
def LinkDone (system : System) (option : RestoreOption) (fs : FileSystem) (link : ManifestLink) :
    Prop :=
  ∃ destination, link.destination = some destination ∧
    fs.node (resolve system fs option.pgPath (manifestPathPg (parts link.name))) =
      some (.file (.link destination))

/-- The name of a path leads to a directory. -/
def PathDone (system : System) (option : RestoreOption) (fs : FileSystem) (name : List Str) : Prop :=
  fs.node (through system fs option.pgPath (manifestPathPg name)) = some .dir

theorem manifestPathPg_cons (rest : List Str) :
    manifestPathPg (manifestTargetPgData :: rest) = rest := by
  rw [manifestPathPg, if_pos rfl]

theorem manifestPathPg_tblspc (rest : List Str) :
    manifestPathPg (manifestTargetPgTblSpc :: rest) = manifestTargetPgTblSpc :: rest := by
  rw [manifestPathPg, if_neg pgData_ne_pgTblSpc.symm]

theorem LinkDone.stable (closed : Closed [] fs) (grows : Extends fs fs') {link : ManifestLink}
    (done : LinkDone system option fs link) : LinkDone system option fs' link := by
  obtain ⟨destination, isDestination, at_⟩ := done
  refine ⟨destination, isDestination, ?_⟩
  rw [resolve_stable closed grows, grows _ _ at_]
  rcases List.eq_nil_or_concat (manifestPathPg (parts link.name)) with nil | ⟨names, name, equal⟩
  · exact .inl nil
  · right
    rw [List.concat_eq_append] at equal
    rw [equal, resolve_concat] at at_ ⊢
    rw [List.dropLast_concat]
    exact isDir_of_isSome closed (by rw [at_]; rfl)

variable {c : CleanData} {rest name : List Str} {node : Node Kind}

theorem PathDone.stable (closed : Closed [] fs) (grows : Extends fs fs')
    (done : PathDone system option fs name) : PathDone system option fs' name := by
  unfold PathDone at done ⊢
  rw [through_stable closed grows (isDir_iff.mpr (.inr done)), grows _ _ done]

/-- Directory targets that share a place are the same. -/
theorem same_target (wf : WellFormed system option manifest) {d : CleanData}
    (isTarget : DirTarget manifest system c) (isTarget' : DirTarget manifest system d)
    {more : List Str} (same : c.targetPath ++ rest = d.targetPath ++ more) :
    c.targetPath = d.targetPath ∧ c.targetName = d.targetName ∧ c.basePath = d.basePath ∧
      rest = more := by
  obtain ⟨target, mem, noFile, rfl⟩ := isTarget
  obtain ⟨target', mem', noFile', rfl⟩ := isTarget'
  have inList := List.mem_map_of_mem (f := cleanDataNew system manifest) mem
  have inList' := List.mem_map_of_mem (f := cleanDataNew system manifest) mem'
  have onePrefix := List.prefix_or_prefix_of_prefix ⟨rest, same⟩ (List.prefix_append _ _)
  have equal : (cleanDataNew system manifest target).targetPath =
        (cleanDataNew system manifest target').targetPath ∧
      (cleanDataNew system manifest target).targetName =
        (cleanDataNew system manifest target').targetName ∧
      (cleanDataNew system manifest target).basePath =
        (cleanDataNew system manifest target').basePath := by
    rcases onePrefix with isPrefix | isPrefix
    · exact (wf.apart _ inList _ inList' noFile isPrefix).2
    · obtain ⟨-, path, name, base⟩ := wf.apart _ inList' _ inList noFile' isPrefix
      exact ⟨path.symm, name.symm, base.symm⟩
  obtain ⟨path, name, base⟩ := equal
  rw [path] at same
  exact ⟨path, name, base, List.append_cancel_left same⟩

theorem keepRest_congr {d : CleanData} (name : c.targetName = d.targetName)
    (base : c.basePath = d.basePath) (rest : List Str) (node : Node Kind) :
    keepRest manifest ignore c rest node = keepRest manifest ignore d rest node := by
  cases node with
  | dir => simp only [keepRest, ignored, name]
  | file kind => cases kind <;> simp only [keepRest, ignored, name, base]

/-- Something named is put in a directory. -/
structure Added (system : System) (manifest : Manifest) (ignore : List Str) (c : CleanData)
    (rest : List Str) (node : Node Kind) (fs fs' : FileSystem) : Prop where
  target : DirTarget manifest system c
  missing : fs.node (c.targetPath ++ rest) = none
  parent : isDir fs (c.targetPath ++ rest).dropLast = true
  keeps : keepRest manifest ignore c rest node = true
  nodes : ∀ q, fs'.node q = if q = c.targetPath ++ rest then some node else fs.node q

theorem Added.grows (added : Added system manifest ignore c rest node fs fs') : Extends fs fs' := by
  intro q node at_
  rw [added.nodes, if_neg, at_]
  rintro rfl
  rw [added.missing] at at_
  exact absurd at_ (by simp)

theorem Added.named (wf : WellFormed system option manifest) (inv : Named system manifest ignore fs)
    (added : Added system manifest ignore c rest node fs fs') :
    Named system manifest ignore fs' := by
  constructor
  case closed =>
    intro q name nonempty isSome
    rw [List.nil_append] at isSome ⊢
    rw [added.nodes] at isSome
    by_cases here : q ++ [name] = c.targetPath ++ rest
    · have parent := added.parent
      rw [← here, List.dropLast_concat] at parent
      rcases isDir_iff.mp parent with nil | dir
      · exact absurd nil nonempty
      · exact added.grows _ _ dir
    · rw [if_neg here] at isSome
      exact added.grows _ _ (inv.closed q name nonempty isSome)
  case roots => exact fun d isTarget => added.grows _ _ (inv.roots d isTarget)
  case named =>
    intro d isTarget more other nonempty at_
    rw [added.nodes] at at_
    split at at_
    · rename_i here
      cases at_
      obtain ⟨-, name, base, rfl⟩ := same_target wf isTarget added.target here
      rw [keepRest_congr name base]
      exact added.keeps
    · exact inv.named d isTarget more other nonempty at_

theorem Added.clear (wf : WellFormed system option manifest)
    (clear : Clear system manifest ignore fs)
    (added : Added system manifest ignore c rest node fs fs')
    (link : HasLink manifest (c.targetName ++ rest) → ∃ destination, node = .file (.link
      destination)) (path : node ≠ .file .file) : Clear system manifest ignore fs' := by
  constructor
  · intro l mem d isTarget more other nonempty isName at_ keeps
    rw [added.nodes] at at_
    split at at_
    · rename_i here
      cases at_
      obtain ⟨-, name, -, rfl⟩ := same_target wf isTarget added.target here
      exact link ⟨l, mem, by rw [← name, isName]⟩
    · exact clear.links l mem d isTarget more other nonempty isName at_ keeps
  · intro name hasPath d isTarget more other nonempty isName at_ keeps
    rw [added.nodes] at at_
    split at at_
    · cases at_
      exact path
    · exact clear.paths name hasPath d isTarget more other nonempty isName at_ keeps

/-! ## Links -/

theorem link_located (wf : WellFormed system option manifest) (inv : Named system manifest ignore fs)
    {link : ManifestLink} (mem : link ∈ manifest.linkList) :
    ∃ c more, DirTarget manifest system c ∧ more ≠ [] ∧ c.targetName ++ more = parts link.name ∧
      resolve system fs option.pgPath (manifestPathPg (parts link.name)) = c.targetPath ++ more := by
  obtain ⟨first, rest, destination, isName, -⟩ := wf.linkNamed link mem
  rw [isName, manifestPathPg_cons]
  apply resolve_located wf inv.linked (List.cons_ne_nil _ _)
  intro k pos lt
  have path := wf.parents _ (.inr (.inl ⟨link, mem, isName⟩)) (k + 1) (by omega) (by simpa using lt)
  rwa [List.take_succ_cons] at path

/-- What a step of making paths and links does. -/
structure Step (system : System) (manifest : Manifest) (ignore : List Str) (fs fs' : FileSystem)
    (done : FileSystem → Prop) : Prop where
  named : Named system manifest ignore fs'
  grows : Extends fs fs'
  clear : Clear system manifest ignore fs → Clear system manifest ignore fs' ∧ done fs'

theorem linkCreate_step (wf : WellFormed system option manifest)
    (inv : Named system manifest ignore fs) {link : ManifestLink} (mem : link ∈ manifest.linkList)
    (run : linkCreate system option fs link = .ok fs') :
    Step system manifest ignore fs fs' (fun fs => LinkDone system option fs link) := by
  obtain ⟨c, more, isTarget, nonempty, isName, place⟩ := @link_located system option manifest ignore fs
    wf inv link mem
  obtain ⟨-, -, destination, -, isDestination⟩ := wf.linkNamed link mem
  simp only [linkCreate, place, isDestination, Option.getD_some] at run
  split at run
  · rename_i there
    cases run
    refine ⟨inv, fun _ _ at_ => at_, fun clear => ⟨clear, destination, isDestination, ?_⟩⟩
    obtain ⟨node, at_⟩ := Option.isSome_iff_exists.mp there
    have keeps := inv.named c isTarget more node nonempty at_
    obtain ⟨other, rfl⟩ := clear.links link mem c isTarget more node nonempty isName at_ keeps
    obtain ⟨link', mem', isName', isDestination'⟩ := inv.link isTarget nonempty at_
    obtain rfl := wf.linkUnique link' mem' link mem (by rw [isName', isName])
    rw [isDestination] at isDestination'
    cases isDestination'
    rw [place, at_]
  · rename_i missing
    split at run
    · rename_i parent
      cases run
      have missing' : fs.node (c.targetPath ++ more) = none := by simpa using missing
      have keeps : keepRest manifest ignore c more (.file (.link destination)) = true := by
        rw [keepRest_of_ne (by simp), isName]
        simp only [isNamed]
        cases found : manifestLinkFindDefault manifest (parts link.name) with
        | none => exact absurd ⟨link, mem, rfl⟩ (linkFind_none.mp found)
        | some link' =>
          obtain ⟨mem', isName'⟩ := linkFind_some found
          obtain rfl := wf.linkUnique link' mem' link mem isName'
          simp only [isDestination, decide_true]
      have added : Added system manifest ignore c more (.file (.link destination)) fs
          (fs.put (c.targetPath ++ more) (.link destination)) :=
        ⟨isTarget, missing', parent, keeps, fun q => node_put⟩
      refine ⟨added.named wf inv, added.grows, fun clear =>
        ⟨added.clear wf clear (fun _ => ⟨destination, rfl⟩) (by simp), destination, isDestination, ?_⟩⟩
      rw [resolve_stable inv.closed added.grows (.inr (by rw [place]; exact parent)), place,
        added.nodes, if_pos rfl]
    · exact absurd run (by simp)

theorem pathDone_of_linkDone (wf : WellFormed system option manifest)
    (inv : Named system manifest ignore fs) {link : ManifestLink} (mem : link ∈ manifest.linkList)
    (hasPath : HasPath manifest name)
    (behind : name = parts link.name ∨ (∃ rest, name = manifestTargetPgTblSpc :: rest) ∧
      manifestTargetPgData :: name = parts link.name) (done : LinkDone system option fs link) :
    PathDone system option fs name := by
  obtain ⟨c, more, isTarget, nonempty, isName, place⟩ := @link_located system option manifest ignore fs
    wf inv link mem
  obtain ⟨destination, isDestination, at_⟩ := done
  obtain ⟨target, memTarget, noFile, isParts, leads⟩ := wf.linked link mem name hasPath behind
  have sameNames : manifestPathPg name = manifestPathPg (parts link.name) := by
    rcases behind with same | ⟨⟨rest, isTblspc⟩, same⟩
    · rw [same]
    · rw [← same, manifestPathPg_cons, isTblspc, manifestPathPg_tblspc]
  obtain ⟨first, rest, -, linkName, -⟩ := wf.linkNamed link mem
  have nonemptyNames : manifestPathPg (parts link.name) ≠ [] := by
    rw [linkName, manifestPathPg_cons]
    simp
  unfold PathDone
  rw [sameNames]
  obtain ⟨names, last, equal⟩ := List.eq_nil_or_concat (manifestPathPg (parts link.name))
    |>.resolve_left nonemptyNames
  rw [List.concat_eq_append] at equal
  rw [equal, resolve_concat] at place at_
  rw [equal, through_concat, follow_of_link at_, place, List.dropLast_append_of_ne_nil nonempty,
    leads c isTarget more destination nonempty isName isDestination]
  -- the root of a target is a directory because something is below it
  have root := inv.roots _ ⟨target, memTarget, noFile, rfl⟩
  change fs.node (system.targetPath target ++ targetExtra manifest target) = some .dir at root
  by_cases extra : targetExtra manifest target = []
  · rwa [extra, List.append_nil] at root
  · have above := @Closed.above _ _ _ [] (system.targetPath target) (targetExtra manifest target) fs
      inv.closed (wf.nonempty target memTarget) extra (by rw [List.nil_append, root]; rfl)
    rwa [List.nil_append] at above

/-! ## Paths -/

theorem not_begins_of_pgData {text : Str} (isName : parts text = manifestTargetPgData :: rest) :
    strBeginsWith text manifestTargetPgTblSpc = false := by
  by_contra begins
  rw [Bool.not_eq_false, strBeginsWith, List.isPrefixOf_iff_prefix] at begins
  have inFirst := (prefix_head_split isName).2 manifestTargetPgTblSpc (by decide) begins
  exact absurd inFirst (by decide)

theorem begins_of_tblspc {text : Str} (isName : parts text = manifestTargetPgTblSpc :: rest) :
    strBeginsWith text manifestTargetPgTblSpc = true := by
  rw [strBeginsWith, List.isPrefixOf_iff_prefix]
  exact (prefix_head_split isName).1

def pathLinkName (path : ManifestPath) : List Str :=
  if strBeginsWith path.name manifestTargetPgTblSpc then manifestTargetPgData :: parts path.name
  else parts path.name

theorem path_located (wf : WellFormed system option manifest) (inv : Named system manifest ignore fs)
    {path : ManifestPath} (mem : path ∈ manifest.pathList)
    (notTblspc : parts path.name ≠ [manifestTargetPgTblSpc])
    (noLink : ¬ HasLink manifest (pathLinkName path))
    (possible : (fs.node (resolve system fs option.pgPath (manifestPathPg (parts path.name)))).isSome ∨
      isDir fs (resolve system fs option.pgPath (manifestPathPg (parts path.name))).dropLast = true) :
    ∃ c more, DirTarget manifest system c ∧ c.targetName ++ more = parts path.name ∧
      resolve system fs option.pgPath (manifestPathPg (parts path.name)) = c.targetPath ++ more ∧
      ¬ HasLink manifest (parts path.name) := by
  have hasPath : HasPath manifest (parts path.name) := ⟨path, mem, rfl⟩
  rcases wf.pathNamed _ hasPath with tblspc | ⟨rest, isName⟩ | ⟨target, memTarget, tablespace, isName⟩
  · exact absurd tblspc notTblspc
  · have linkName : pathLinkName path = parts path.name := by
      rw [pathLinkName, not_begins_of_pgData isName]
      rfl
    rw [linkName] at noLink
    have samePlace : manifestPathPg (parts path.name) = rest := by rw [isName, manifestPathPg_cons]
    rw [samePlace]
    by_cases base : rest = []
    · obtain ⟨c, isTarget, name, place⟩ := wf.base
      subst base
      refine ⟨c, [], isTarget, by rw [name, isName]; rfl, ?_, noLink⟩
      rw [place, List.append_nil]
      rfl
    · rw [isName] at hasPath
      obtain ⟨c, more, isTarget, -, name, place⟩ := @resolve_located system option manifest fs
        wf inv.linked rest base (by
          intro k pos lt
          have above := wf.parents _ (.inl hasPath) (k + 1) (by omega) (by simpa using lt)
          rwa [List.take_succ_cons] at above)
      exact ⟨c, more, isTarget, by rw [name, isName], place, noLink⟩
  · have tablespace' := tablespace
    obtain ⟨noFile, id, isParts, hasLink, -⟩ := tablespace'
    have head : ∃ rest, parts path.name = manifestTargetPgTblSpc :: rest := by
      rcases isName with isName | ⟨rest, isName⟩
      · exact ⟨[id], by rw [isName, isParts]⟩
      · exact ⟨id :: (targetExtra manifest target ++ rest), by rw [isName, isParts]; simp⟩
    obtain ⟨below, head⟩ := head
    have linkName : pathLinkName path = manifestTargetPgData :: parts path.name := by
      rw [pathLinkName, begins_of_tblspc head]
      rfl
    rw [linkName] at noLink
    have notRoot : parts path.name ≠ parts target.name := by
      intro same
      rw [same] at noLink
      exact noLink hasLink
    obtain ⟨rest, isName⟩ := isName.resolve_left notRoot
    rw [List.append_assoc] at isName
    have nonempty : targetExtra manifest target ++ rest ≠ [] := by
      intro nil
      rw [nil, List.append_nil] at isName
      exact notRoot isName
    have same : manifestPathPg (parts path.name) = parts path.name := by
      rw [head, manifestPathPg_tblspc]
    rw [same, isName] at possible
    rw [isName] at hasPath
    refine ⟨cleanDataNew system manifest target, rest, ⟨target, memTarget, noFile, rfl⟩, ?_, ?_, ?_⟩
    · rw [isName, ← List.append_assoc]
      rfl
    · rw [same, isName]
      exact tablespace_located wf inv.linked memTarget tablespace nonempty (.inl hasPath) possible
    · rintro ⟨link, memLink, linkName'⟩
      obtain ⟨first, others, -, isPgData, -⟩ := wf.linkNamed link memLink
      rw [linkName', head] at isPgData
      exact pgData_ne_pgTblSpc (List.cons.inj isPgData).1.symm

/-- What stands in the place of a path that has no link is a directory. -/
theorem dir_of_named (inv : Named system manifest ignore fs)
    (clear : Clear system manifest ignore fs) (hasPath : HasPath manifest name)
    (noLink : ¬ HasLink manifest name) (isTarget : DirTarget manifest system c) {more : List Str}
    (isName : c.targetName ++ more = name) (there : (fs.node (c.targetPath ++ more)).isSome) :
    fs.node (c.targetPath ++ more) = some .dir := by
  by_cases root : more = []
  · subst root
    rw [List.append_nil]
    exact inv.roots c isTarget
  · obtain ⟨node, at_⟩ := Option.isSome_iff_exists.mp there
    have keeps := inv.named c isTarget more node root at_
    cases node with
    | dir => exact at_
    | file kind =>
      exfalso
      cases kind with
      | file => exact clear.paths name hasPath c isTarget more _ root isName at_ keeps rfl
      | link destination =>
        obtain ⟨link, mem, linkName, -⟩ := inv.link isTarget root at_
        exact noLink ⟨link, mem, by rw [linkName, isName]⟩
      | special =>
        rw [keepRest_of_ne (by simp)] at keeps
        exact absurd keeps (by simp [isNamed])

theorem pathStep_step (wf : WellFormed system option manifest) (inv : Named system manifest ignore fs)
    {path : ManifestPath} (mem : path ∈ manifest.pathList)
    (run : pathStep system option manifest fs path = .ok fs') :
    Step system manifest ignore fs fs' (fun fs =>
      parts path.name ≠ [manifestTargetPgTblSpc] → PathDone system option fs (parts path.name)) := by
  have hasPath : HasPath manifest (parts path.name) := ⟨path, mem, rfl⟩
  unfold pathStep at run
  simp only at run
  split at run
  · rename_i tblspc
    cases run
    exact ⟨inv, fun _ _ at_ => at_, fun clear => ⟨clear, fun notTblspc => absurd tblspc notTblspc⟩⟩
  · rename_i notTblspc
    rw [← pathLinkName] at run
    split at run
    · rename_i link found
      obtain ⟨memLink, linkName⟩ := linkFind_some found
      have step := @linkCreate_step system option manifest ignore fs fs' wf inv link memLink run
      refine ⟨step.named, step.grows, fun clear => ?_⟩
      obtain ⟨clear', done⟩ := step.clear clear
      refine ⟨clear', fun _ => pathDone_of_linkDone wf step.named memLink hasPath ?_ done⟩
      rcases wf.pathNamed _ hasPath with tblspc | ⟨rest, isName⟩ | ⟨target, memTarget, tablespace, isName⟩
      · exact absurd tblspc notTblspc
      · rw [pathLinkName, not_begins_of_pgData isName] at linkName
        exact .inl linkName.symm
      · obtain ⟨-, id, isParts, -⟩ := tablespace
        have head : ∃ rest, parts path.name = manifestTargetPgTblSpc :: rest := by
          rcases isName with isName | ⟨rest, isName⟩
          · exact ⟨[id], by rw [isName, isParts]⟩
          · exact ⟨id :: (targetExtra manifest target ++ rest), by rw [isName, isParts]; simp⟩
        obtain ⟨below, head⟩ := head
        rw [pathLinkName, begins_of_tblspc head] at linkName
        exact .inr ⟨⟨below, head⟩, linkName.symm⟩
    · rename_i noLink
      have noLink' := linkFind_none.mp noLink
      split at run
      · rename_i there
        cases run
        refine ⟨inv, fun _ _ at_ => at_, fun clear => ⟨clear, fun _ => ?_⟩⟩
        obtain ⟨c, more, isTarget, isName, place, noLinkName⟩ := path_located wf inv mem notTblspc
          noLink' (.inl there)
        rw [place] at there
        have dir := dir_of_named inv clear hasPath noLinkName isTarget isName there
        rw [← place] at dir
        rw [PathDone, through_of_dir dir, dir]
      · rename_i missing
        split at run
        · rename_i parent
          cases run
          obtain ⟨c, more, isTarget, isName, place, noLinkName⟩ := path_located wf inv mem notTblspc
            noLink' (.inr parent)
          rw [place] at missing parent ⊢
          have missing' : fs.node (c.targetPath ++ more) = none := by simpa using missing
          have keeps : keepRest manifest ignore c more .dir = true := by
            rw [keepRest_of_ne (by simp), isName]
            exact pathFind_isSome.mpr hasPath
          have added : Added system manifest ignore c more .dir fs (fs.mkdir (c.targetPath ++ more)) :=
            ⟨isTarget, missing', parent, keeps, fun q => by rw [node_mkdir]; simp only [missing', and_true]⟩
          refine ⟨added.named wf inv, added.grows, fun clear =>
            ⟨added.clear wf clear (fun hasLink => ?_) (by simp), fun _ => ?_⟩⟩
          · rw [isName] at hasLink
            exact absurd hasLink noLinkName
          · have sameResolve := @resolve_stable system fs _ inv.closed added.grows option.pgPath
              (manifestPathPg (parts path.name)) (.inr (by rw [place]; exact parent))
            have dir : (fs.mkdir (c.targetPath ++ more)).node (resolve system
                (fs.mkdir (c.targetPath ++ more)) option.pgPath (manifestPathPg (parts path.name))) =
                some .dir := by
              rw [sameResolve, place, added.nodes, if_pos rfl]
            rw [PathDone, through_of_dir dir, dir]
        · exact absurd run (by simp)

end Steps

end RestoreClean
