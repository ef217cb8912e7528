import Backrest.RestoreClean

/-!
# Cleaning the targets of a restore

What the second step leaves: below each directory target exactly what was there
and is kept, and every target directory in place.
-/

namespace RestoreClean

open Text BackupManifest FileTree TreeWalk

section Clean
variable {fuel : Nat} {manifest : Manifest} {ignore : List Str} {c : CleanData} {fs fs' : FileSystem}

def keepRest (manifest : Manifest) (ignore : List Str) (c : CleanData) (rest : List Str)
    (node : Node Kind) : Bool :=
  ignored ignore c rest node || isNamed manifest (c.targetName ++ rest) node

def keepPath (manifest : Manifest) (ignore : List Str) (c : CleanData) (path : List Str)
    (node : Node Kind) : Bool :=
  keepRest manifest ignore c (path.drop c.targetPath.length) node

@[simp]
theorem keepPath_append (rest : List Str) (node : Node Kind) :
    keepPath manifest ignore c (c.targetPath ++ rest) node = keepRest manifest ignore c rest node := by
  rw [keepPath, List.drop_left]

theorem cleans_callback : Cleans (restoreCleanInfoListCallback manifest ignore true c)
    (keepPath manifest ignore c) (fun _ _ u => u) (fun _ => True) (fun _ _ => True) where
  kept := by
    intro path node t u _ _ kept
    unfold restoreCleanInfoListCallback
    cases isIgnored : ignored ignore c (path.drop c.targetPath.length) node with
    | true =>
      refine ⟨false, by simp [isIgnored], ?_⟩
      cases node with
      | dir => exact absurd isIgnored (by simp [ignored])
      | file kind => simp
    | false =>
      rw [keepPath, keepRest, isIgnored, Bool.false_or] at kept
      cases node with
      | dir => exact ⟨true, by simp [isIgnored, kept], by simp⟩
      | file kind => exact ⟨false, by simp [isIgnored, kept], by simp⟩
  removed := by
    intro path node t u _ _ empty notKept
    rw [keepPath, keepRest, Bool.or_eq_false_iff] at notKept
    obtain ⟨notIgnored, notNamed⟩ := notKept
    unfold restoreCleanInfoListCallback
    cases node with
    | dir => exact ⟨t.removeTree path, false, by simp [notIgnored, notNamed], fun q => node_removeTree⟩
    | file kind =>
      exact ⟨t.remove path, false, by simp [notIgnored, notNamed], node_remove_of_empty (empty (by simp))⟩
  act_inv := fun _ _ => trivial

/-- What cleaning one directory leaves. -/
structure Emptied (manifest : Manifest) (ignore : List Str) (c : CleanData) (fs fs' : FileSystem) :
    Prop where
  dir : fs.node c.targetPath = some .dir
  apart : ∀ q, (∀ rest, rest ≠ [] → q ≠ c.targetPath ++ rest) → fs'.node q = fs.node q
  left : ∀ rest node, rest ≠ [] → (fs'.node (c.targetPath ++ rest) = some node ↔
    fs.node (c.targetPath ++ rest) = some node ∧
      Kept (keepPath manifest ignore c) fs c.targetPath rest)

theorem walk_ready (closed : Closed [] fs) (depth : Depth [] fs fuel)
    (dir : fs.node c.targetPath = some .dir) :
    Closed c.targetPath fs ∧ 0 < fuel ∧ Depth c.targetPath fs fuel := by
  have short : c.targetPath.length < fuel := depth c.targetPath (by simp [dir])
  refine ⟨closed.of_eq List.nil_prefix (fun _ => rfl), by omega, ?_⟩
  intro rest isSome
  have long := depth (c.targetPath ++ rest) isSome
  rw [List.length_append] at long
  omega

theorem infoList_emptied (closed : Closed [] fs) (depth : Depth [] fs fuel)
    (run : infoList fuel (fun names => strLstSort names .asc) manifest ignore true c fs = .ok fs') :
    Emptied manifest ignore c fs fs' := by
  unfold infoList at run
  split at run
  · exact absurd run (by simp)
  · exact absurd run (by simp)
  · rename_i dir
    obtain ⟨closedHere, pos, depthHere⟩ := walk_ready closed depth dir
    obtain ⟨t, u, walked, spec⟩ := walk_spec (fun names => strLstSort_perm names .asc)
      (@cleans_callback manifest ignore c) fuel c.targetPath fs () pos depthHere closedHere
      (fun _ _ _ => trivial) trivial
    rw [walked] at run
    cases run
    exact ⟨dir, fun q apart => spec.apart apart,
      fun rest node nonempty => spec.left_iff closedHere nonempty⟩

/-- Only something below the directory is taken out. -/
theorem Emptied.sub (emptied : Emptied manifest ignore c fs fs') {q : List Str} {node : Node Kind}
    (at_ : fs'.node q = some node) : fs.node q = some node := by
  by_cases below : ∃ rest, rest ≠ [] ∧ q = c.targetPath ++ rest
  · obtain ⟨rest, nonempty, rfl⟩ := below
    exact ((emptied.left rest node nonempty).mp at_).1
  · rwa [emptied.apart q (fun rest nonempty equal => below ⟨rest, nonempty, equal⟩)] at at_

theorem Emptied.closed (emptied : Emptied manifest ignore c fs fs') (closed : Closed [] fs) :
    Closed [] fs' := by
  intro q name nonempty isSome
  obtain ⟨node, at_⟩ := Option.isSome_iff_exists.mp isSome
  have dir := closed q name nonempty (by rw [emptied.sub at_]; rfl)
  rw [List.nil_append] at dir ⊢
  by_cases below : ∃ rest, rest ≠ [] ∧ q = c.targetPath ++ rest
  · -- what is above something that is left is left
    obtain ⟨rest, nonemptyRest, rfl⟩ := below
    rw [List.nil_append, List.append_assoc] at at_
    have kept := ((emptied.left (rest ++ [name]) node (by simp)).mp at_).2
    exact (emptied.left rest .dir nonemptyRest).mpr ⟨dir, kept.of_append⟩
  · rw [emptied.apart q (fun rest nonempty equal => below ⟨rest, nonempty, equal⟩)]
    exact dir

theorem Emptied.depth (emptied : Emptied manifest ignore c fs fs') (depth : Depth [] fs fuel) :
    Depth [] fs' fuel := by
  intro rest isSome
  obtain ⟨node, at_⟩ := Option.isSome_iff_exists.mp isSome
  exact depth rest (by rw [emptied.sub at_]; rfl)

/-! ## Creating a directory with its parents -/

structure Created (path : List Str) (fs fs' : FileSystem) : Prop where
  keeps : ∀ q node, fs.node q = some node → fs'.node q = some node
  adds : ∀ q node, fs'.node q = some node → fs.node q = some node ∨ (node = .dir ∧ q ≠ [] ∧ q <+: path)
  closed : Closed [] fs → Closed [] fs'
  there : path ≠ [] → (fs'.node path).isSome

theorem inits_tail_concat (path : List Str) (name : Str) :
    (path ++ [name]).inits.tail = path.inits.tail ++ [path ++ [name]] := by
  cases path with
  | nil => simp
  | cons first rest => simp [List.inits_append]

/-- The steps down to a path leave it a directory, unless it is the end and was there. -/
theorem pathCreateStep_created {target path : List Str} (within : path <+: target)
    (run : path.inits.tail.foldlM (pathCreateStep target) fs = .ok fs') :
    Created path fs fs' ∧ (path ≠ [] → path ≠ target → fs'.node path = some .dir) := by
  induction path using List.reverseRecOn generalizing fs' with
  | nil =>
    cases run
    exact ⟨⟨fun _ _ at_ => at_, fun _ _ at_ => .inl at_, fun closed => closed, fun absurd' => absurd rfl absurd'⟩,
      fun absurd' => absurd rfl absurd'⟩
  | append_singleton path name ih =>
    rw [inits_tail_concat, List.foldlM_append] at run
    obtain ⟨middle, first, last⟩ := Effects.except_bind_ok run
    obtain ⟨created, isDir⟩ := ih ((List.prefix_append _ _).trans within) first
    have notTarget : path ≠ target := by
      rintro rfl
      have long := within.length_le
      rw [List.length_append, List.length_singleton] at long
      omega
    have widen : ∀ q node, middle.node q = some node → fs.node q = some node ∨
        (node = .dir ∧ q ≠ [] ∧ q <+: path ++ [name]) := by
      intro q node at_
      rcases created.adds q node at_ with old | ⟨dir, nonempty, isPrefix⟩
      · exact .inl old
      · exact .inr ⟨dir, nonempty, isPrefix.trans (List.prefix_append _ _)⟩
    rw [List.foldlM_cons] at last
    obtain ⟨final, step, done⟩ := Effects.except_bind_ok last
    cases done
    unfold pathCreateStep at step
    split at step
    · rename_i missing
      cases step
      have nodes : ∀ q, (middle.mkdir (path ++ [name])).node q =
          if q = path ++ [name] then some .dir else middle.node q := by
        intro q
        rw [node_mkdir]
        simp only [missing, and_true]
      refine ⟨⟨?_, ?_, ?_, ?_⟩, ?_⟩
      · intro q node at_
        rw [nodes, if_neg]
        · exact created.keeps q node at_
        · rintro rfl
          rw [created.keeps _ _ at_] at missing
          exact absurd missing (by simp)
      · intro q node at_
        rw [nodes] at at_
        split at at_
        · rename_i here
          subst here
          cases at_
          exact .inr ⟨rfl, by simp, List.prefix_rfl⟩
        · exact widen q node at_
      · intro closed q last nonempty isSome
        rw [nodes] at isSome ⊢
        rw [List.nil_append] at isSome ⊢
        by_cases here : q ++ [last] = path ++ [name]
        · obtain ⟨rfl, -⟩ := List.append_inj' here rfl
          rw [if_neg (by simp)]
          exact isDir nonempty notTarget
        · rw [if_neg here] at isSome
          have dir := created.closed closed q last nonempty isSome
          rw [List.nil_append] at dir
          rw [if_neg, dir]
          rintro rfl
          rw [missing] at dir
          exact absurd dir (by simp)
      · intro _
        rw [nodes, if_pos rfl]
        rfl
      · intro _ _
        rw [nodes, if_pos rfl]
    · rename_i dir
      cases step
      exact ⟨⟨created.keeps, widen, created.closed, fun _ => by rw [dir]; rfl⟩, fun _ _ => dir⟩
    · rename_i kind there
      split at step
      · rename_i isTarget
        cases step
        exact ⟨⟨created.keeps, widen, created.closed, fun _ => by rw [there]; rfl⟩,
          fun _ notTarget => absurd isTarget notTarget⟩
      · exact absurd step (by simp)

theorem storagePathCreate_created {path : List Str}
    (run : storagePathCreate path fs = .ok fs') : Created path fs fs' :=
  (pathCreateStep_created List.prefix_rfl run).1

end Clean

/-! ## All targets -/

section Targets
variable {fuel : Nat} {option : RestoreOption} {manifest : Manifest} {ignore : List Str}
  {cs done : List CleanData} {start fs fs' : FileSystem} {c d : CleanData}

/-- A directory target holds no other target. -/
def Apart (cs : List CleanData) : Prop :=
  ∀ c ∈ cs, ∀ d ∈ cs, c.file = none → c.targetPath <+: d.targetPath →
    d.file = none ∧ c.targetPath = d.targetPath ∧ c.targetName = d.targetName ∧
      c.basePath = d.basePath

/-- The targets that were found are those that were there at the start. -/
def Surveyed (cs : List CleanData) (start : FileSystem) : Prop :=
  ∀ c ∈ cs, c.targetPath ≠ [] ∧ (c.isThere = false → start.node c.targetPath = none)

structure Cleaning (fuel : Nat) (manifest : Manifest) (ignore : List Str) (cs done : List CleanData)
    (start fs : FileSystem) : Prop where
  closed : Closed [] fs
  depth : Depth [] fs fuel
  /-- Nothing but directories is new. -/
  dirs : ∀ q node, fs.node q = some node → start.node q = some node ∨ node = .dir
  /-- Nothing is new below a directory target. -/
  sub : ∀ c ∈ cs, c.file = none → ∀ rest node, rest ≠ [] →
    fs.node (c.targetPath ++ rest) = some node → start.node (c.targetPath ++ rest) = some node
  /-- What is kept stays. -/
  stays : ∀ c ∈ cs, c.file = none → ∀ rest node, rest ≠ [] →
    start.node (c.targetPath ++ rest) = some node →
    Kept (keepPath manifest ignore c) start c.targetPath rest →
    fs.node (c.targetPath ++ rest) = some node
  clean : ∀ c ∈ done, c.file = none → fs.node c.targetPath = some .dir ∧
    ∀ rest node, rest ≠ [] → fs.node (c.targetPath ++ rest) = some node →
      keepRest manifest ignore c rest node = true

theorem keepPath_congr (path : c.targetPath = d.targetPath) (name : c.targetName = d.targetName)
    (base : c.basePath = d.basePath) : keepPath manifest ignore c = keepPath manifest ignore d := by
  funext p node
  cases node with
  | dir => simp only [keepPath, keepRest, ignored, path, name]
  | file kind =>
    cases kind <;> simp only [keepPath, keepRest, ignored, path, name, base]

theorem cleaning_emptied (apart : Apart cs) (memDone : ∀ c ∈ done, c ∈ cs) (mem : d ∈ cs)
    (isDir : d.file = none) (cleaning : Cleaning fuel manifest ignore cs done start fs)
    (emptied : Emptied manifest ignore d fs fs') :
    Cleaning fuel manifest ignore cs (done ++ [d]) start fs' := by
  -- a directory target is not below another
  have notBelow : ∀ c ∈ cs, c.file = none → ∀ rest, rest ≠ [] →
      c.targetPath ≠ d.targetPath ++ rest := by
    intro c memC file rest nonempty equal
    have same := apart d mem c memC isDir ⟨rest, equal.symm⟩
    rw [equal] at same
    exact nonempty (by simpa using same.2.1)
  constructor
  case closed => exact emptied.closed cleaning.closed
  case depth => exact emptied.depth cleaning.depth
  case dirs => exact fun q node at_ => cleaning.dirs q node (emptied.sub at_)
  case sub =>
    exact fun c memC file rest node nonempty at_ =>
      cleaning.sub c memC file rest node nonempty (emptied.sub at_)
  case stays =>
    intro c memC file rest node nonempty at_ kept
    have stay := cleaning.stays c memC file rest node nonempty at_ kept
    by_cases below : ∃ more, more ≠ [] ∧ c.targetPath ++ rest = d.targetPath ++ more
    · -- then it is the target that is cleaned
      obtain ⟨more, nonemptyMore, equal⟩ := below
      have onePrefix : c.targetPath <+: d.targetPath ∨ d.targetPath <+: c.targetPath :=
        List.prefix_or_prefix_of_prefix ⟨rest, equal⟩ (List.prefix_append _ _)
      have same : c.targetPath = d.targetPath ∧ c.targetName = d.targetName ∧
          c.basePath = d.basePath := by
        rcases onePrefix with isPrefix | isPrefix
        · exact (apart c memC d mem file isPrefix).2
        · obtain ⟨-, path, name, base⟩ := apart d mem c memC isDir isPrefix
          exact ⟨path.symm, name.symm, base.symm⟩
      obtain ⟨path, name, base⟩ := same
      rw [path] at equal stay ⊢
      obtain rfl := List.append_cancel_left equal
      refine (emptied.left rest node nonempty).mpr ⟨stay, ?_⟩
      rw [kept_iff] at kept ⊢
      intro k pos le
      obtain ⟨above, atAbove, keeps⟩ := kept k pos le
      have nonemptyAbove : rest.take k ≠ [] := by
        simp only [ne_eq, List.take_eq_nil_iff, not_or]
        exact ⟨by omega, nonempty⟩
      have keptAbove : Kept (keepPath manifest ignore c) start c.targetPath (rest.take k) := by
        rw [kept_iff]
        intro j posJ leJ
        rw [List.length_take] at leJ
        obtain ⟨node', at', keeps'⟩ := kept j posJ (by omega)
        rw [List.take_take, Nat.min_eq_left (by omega)]
        exact ⟨node', at', keeps'⟩
      have stayAbove := cleaning.stays c memC file _ above nonemptyAbove atAbove keptAbove
      rw [path] at stayAbove keeps
      exact ⟨above, stayAbove, (keepPath_congr path name base) ▸ keeps⟩
    · rw [emptied.apart _ (fun more nonemptyMore equal => below ⟨more, nonemptyMore, equal⟩)]
      exact stay
  case clean =>
    intro c memC file
    rcases List.mem_append.mp memC with memC | memC
    · obtain ⟨dir, keeps⟩ := cleaning.clean c memC file
      refine ⟨?_, fun rest node nonempty at_ => keeps rest node nonempty (emptied.sub at_)⟩
      rw [emptied.apart _ (fun rest nonempty => notBelow c (memDone c memC) file rest nonempty), dir]
    · obtain rfl := List.mem_singleton.mp memC
      refine ⟨?_, ?_⟩
      · rw [emptied.apart _ (fun rest nonempty => notBelow c mem file rest nonempty), emptied.dir]
      · intro rest node nonempty at_
        obtain ⟨-, kept⟩ := (emptied.left rest node nonempty).mp at_
        obtain ⟨last, atLast, keeps⟩ := kept_iff.mp kept rest.length
          (List.length_pos_iff.mpr nonempty) (Nat.le_refl _)
        rw [List.take_length] at atLast keeps
        rw [emptied.sub at_] at atLast
        cases atLast
        rwa [keepPath_append] at keeps

theorem cleaning_created (apart : Apart cs) (surveyed : Surveyed cs start)
    (closedStart : Closed [] start) (memDone : ∀ c ∈ done, c ∈ cs) (mem : d ∈ cs)
    (missing : d.isThere = false) (short : d.targetPath.length < fuel)
    (cleaning : Cleaning fuel manifest ignore cs done start fs)
    (created : Created d.targetPath fs fs') :
    Cleaning fuel manifest ignore cs (done ++ [d]) start fs' := by
  -- nothing is created below a directory target
  have old : ∀ c ∈ cs, c.file = none → ∀ rest node, rest ≠ [] →
      fs'.node (c.targetPath ++ rest) = some node → fs.node (c.targetPath ++ rest) = some node := by
    intro c memC file rest node nonempty at_
    rcases created.adds _ node at_ with old | ⟨-, -, isPrefix⟩
    · exact old
    · have same := (apart c memC d mem file ((List.prefix_append _ _).trans isPrefix)).2.1
      have long := isPrefix.length_le
      rw [List.length_append, same] at long
      exact absurd (List.length_pos_iff.mpr nonempty) (by omega)
  have dirs : ∀ q node, fs'.node q = some node → start.node q = some node ∨ node = .dir := by
    intro q node at_
    rcases created.adds q node at_ with at_ | ⟨isDir, -⟩
    · exact cleaning.dirs q node at_
    · exact .inr isDir
  have sub : ∀ c ∈ cs, c.file = none → ∀ rest node, rest ≠ [] →
      fs'.node (c.targetPath ++ rest) = some node →
      start.node (c.targetPath ++ rest) = some node :=
    fun c memC file rest node nonempty at_ =>
      cleaning.sub c memC file rest node nonempty (old c memC file rest node nonempty at_)
  refine ⟨created.closed cleaning.closed, ?_, dirs, sub, ?_, ?_⟩
  · intro q isSome
    obtain ⟨node, at_⟩ := Option.isSome_iff_exists.mp isSome
    rcases created.adds _ node at_ with at_ | ⟨-, -, isPrefix⟩
    · exact cleaning.depth q (by rw [at_]; rfl)
    · have long := isPrefix.length_le
      rw [List.nil_append] at long
      omega
  · intro c memC file rest node nonempty at_ kept
    exact created.keeps _ _ (cleaning.stays c memC file rest node nonempty at_ kept)
  · intro c memC file
    rcases List.mem_append.mp memC with memC | memC
    · obtain ⟨dir, keeps⟩ := cleaning.clean c memC file
      exact ⟨created.keeps _ _ dir, fun rest node nonempty at_ =>
        keeps rest node nonempty (old c (memDone c memC) file rest node nonempty at_)⟩
    · obtain rfl := List.mem_singleton.mp memC
      obtain ⟨nonemptyPath, absent⟩ := surveyed c mem
      specialize absent missing
      refine ⟨?_, ?_⟩
      · obtain ⟨node, at_⟩ := Option.isSome_iff_exists.mp (created.there nonemptyPath)
        rcases dirs _ node at_ with old | isDir
        · rw [absent] at old
          exact absurd old (by simp)
        · rw [at_, isDir]
      · intro rest node nonempty at_
        have before := sub c mem file rest node nonempty at_
        have none := @Closed.none_below _ _ _ [] start closedStart c.targetPath rest nonemptyPath absent
        rw [List.nil_append, before] at none
        exact absurd none (by simp)

theorem cleaning_step (apart : Apart cs) (surveyed : Surveyed cs start)
    (closedStart : Closed [] start) (memDone : ∀ c ∈ done, c ∈ cs) (mem : d ∈ cs)
    (short : d.targetPath.length < fuel)
    (cleaning : Cleaning fuel manifest (fileIgnore option manifest) cs done start fs)
    (run : cleanTarget fuel option manifest fs d = .ok fs') :
    Cleaning fuel manifest (fileIgnore option manifest) cs (done ++ [d]) start fs' := by
  unfold cleanTarget at run
  split at run
  · split at run
    · -- file links are not cleaned
      rename_i file isFile
      cases run
      refine { cleaning with clean := ?_ }
      intro c memC noFile
      rcases List.mem_append.mp memC with memC | memC
      · exact cleaning.clean c memC noFile
      · obtain rfl := List.mem_singleton.mp memC
        rw [isFile] at noFile
        exact absurd noFile (by simp)
    · rename_i noFile
      split at run
      · exact absurd run (by simp)
      · exact cleaning_emptied apart memDone mem noFile cleaning
          (infoList_emptied cleaning.closed cleaning.depth run)
  · rename_i missing
    simp only at run
    split at run
    · exact absurd run (by simp)
    · exact cleaning_created apart surveyed closedStart memDone mem (by simpa using missing) short
        cleaning (storagePathCreate_created run)

theorem infoList_ne_fuel (closed : Closed [] fs) (depth : Depth [] fs fuel) :
    infoList fuel (fun names => strLstSort names .asc) manifest ignore true c fs ≠ .error .fuel := by
  unfold infoList
  split
  · simp
  · simp
  · rename_i dir
    obtain ⟨closedHere, pos, depthHere⟩ := walk_ready closed depth dir
    obtain ⟨t, u, walked, -⟩ := walk_spec (fun names => strLstSort_perm names .asc)
      (@cleans_callback manifest ignore c) fuel c.targetPath fs () pos depthHere closedHere
      (fun _ _ _ => trivial) trivial
    rw [walked]
    simp

theorem storagePathCreate_ne_fuel (path : List Str) : storagePathCreate path fs ≠ .error .fuel := by
  apply Effects.except_foldlM_ne
  intro fs above
  unfold pathCreateStep
  split
  · simp
  · simp
  · split <;> simp

theorem cleanTarget_ne_fuel (closed : Closed [] fs) (depth : Depth [] fs fuel) :
    cleanTarget fuel option manifest fs c ≠ .error .fuel := by
  unfold cleanTarget
  split
  · split
    · simp
    · split
      · simp
      · exact infoList_ne_fuel closed depth
  · simp only
    split
    · simp
    · exact storagePathCreate_ne_fuel c.targetPath

theorem cleaning_rest (apart : Apart cs) (surveyed : Surveyed cs start)
    (closedStart : Closed [] start) (short : ∀ c ∈ cs, c.targetPath.length < fuel)
    {rest : List CleanData} (all : done ++ rest = cs)
    (cleaning : Cleaning fuel manifest (fileIgnore option manifest) cs done start fs) :
    rest.foldlM (cleanTarget fuel option manifest) fs ≠ .error .fuel ∧
      ∀ fs', rest.foldlM (cleanTarget fuel option manifest) fs = .ok fs' →
        Cleaning fuel manifest (fileIgnore option manifest) cs cs start fs' := by
  induction rest generalizing done fs with
  | nil =>
    refine ⟨by simp [pure, Except.pure], ?_⟩
    intro fs' run
    cases run
    rw [List.append_nil] at all
    rwa [all] at cleaning
  | cons d rest ih =>
    have mem : d ∈ cs := by
      rw [← all]
      simp
    have memDone : ∀ c ∈ done, c ∈ cs := by
      intro c memC
      rw [← all]
      exact List.mem_append_left _ memC
    have notFuel := @cleanTarget_ne_fuel fuel option manifest fs d cleaning.closed cleaning.depth
    rw [List.foldlM_cons]
    cases first : cleanTarget fuel option manifest fs d with
    | error e =>
      rw [first] at notFuel
      exact ⟨notFuel, fun _ run => absurd run (by simp [bind, Except.bind])⟩
    | ok middle =>
      exact ih (by rw [List.append_assoc]; exact all)
        (cleaning_step apart surveyed closedStart memDone mem (short d mem) cleaning first)

theorem cleaning_all (apart : Apart cs) (surveyed : Surveyed cs start)
    (closedStart : Closed [] start) (depth : Depth [] start fuel)
    (short : ∀ c ∈ cs, c.targetPath.length < fuel) :
    cs.foldlM (cleanTarget fuel option manifest) start ≠ .error .fuel ∧
      ∀ fs', cs.foldlM (cleanTarget fuel option manifest) start = .ok fs' →
        Cleaning fuel manifest (fileIgnore option manifest) cs cs start fs' := by
  apply cleaning_rest apart surveyed closedStart short (List.nil_append cs)
  exact ⟨closedStart, depth, fun _ _ at_ => .inl at_, fun _ _ _ _ _ _ at_ => at_,
    fun _ _ _ _ _ _ at_ _ => at_, by simp⟩

end Targets

end RestoreClean
