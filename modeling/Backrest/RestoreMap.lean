import Backrest.ManifestTarget
import Backrest.Effects

/-!
# The mapping of a manifest to new places

`restoreManifestMap` gives the data directory, the tablespaces and the links of a
backup the places that the options ask for. A target and its link are two entries
of two lists. The links that are not restored as links leave both lists while the
loop goes through the targets.
-/

namespace RestoreMap

open Text BackupManifest PathName ManifestTarget Effects

section Code

structure MapOption where
  pgPath : Str
  tablespaceMap : Option (List (Str × Str)) := none
  tablespaceMapAllPath : Option Str := none
  linkMap : Option (List (Str × Str)) := none
  linkAll : Bool := false

def kvGet (this : List (Str × Str)) (key : Str) : Option Str :=
  (this.find? (fun pair => pair.1 = key)).map (·.2)

def kvKeyList (this : List (Str × Str)) : List Str := this.map (·.1)

/-- Every key of a map has to be one that was used. -/
def mapKeyCheck (invalidError : Str → Error) (map : Option (List (Str × Str)))
    (remapped : List Str) : Except Error Unit :=
  match map with
  | none => return ()
  | some map =>
    (kvKeyList map).forM fun key =>
      if key ∈ remapped then return () else throw (invalidError key)

def dataDirectoryMap (option : MapOption) (manifest : Manifest) : Except Error Manifest := do
  let targetBase ← manifestTargetBase manifest
  if targetBase.path ≠ some option.pgPath then
    manifestTargetUpdate manifest targetBase.name option.pgPath none
  else return manifest

def differentPathsError (target : ManifestTarget) : Error :=
  ⟨.tablespaceMapError, "tablespace remapped by name '".toList ++ target.tablespaceName.getD [] ++
    "' and id ".toList ++ fmtUInt target.tablespaceId ++ " with different paths".toList⟩

def invalidTablespaceError (tablespace : Str) : Error :=
  ⟨.tablespaceMapError, "unable to remap invalid tablespace '".toList ++ tablespace ++ ['\'']⟩

def tablespacePathByName (option : MapOption) (target : ManifestTarget) : Option Str :=
  option.tablespaceMap.bind fun tablespaceMap => target.tablespaceName.bind (kvGet tablespaceMap)

def tablespacePathById (option : MapOption) (target : ManifestTarget) : Option Str :=
  option.tablespaceMap.bind fun tablespaceMap => kvGet tablespaceMap (fmtUInt target.tablespaceId)

def tablespaceKeys (option : MapOption) (target : ManifestTarget) : List Str :=
  (if (tablespacePathByName option target).isSome then [target.tablespaceName.getD []] else []) ++
    (if (tablespacePathById option target).isSome then [fmtUInt target.tablespaceId] else [])

def individualPath (option : MapOption) (target : ManifestTarget) : Except Error (Option Str) :=
  match tablespacePathByName option target, tablespacePathById option target with
  | some pathByName, some pathById =>
    if pathByName ≠ pathById then throw (differentPathsError target) else return some pathByName
  | some pathByName, none => return some pathByName
  | none, pathById => return pathById

/-- Without an individual mapping all tablespaces may be remapped. -/
def mapAllPath (option : MapOption) (target : ManifestTarget) :
    Option Str → Except Error (Option Str)
  | some tablespacePath => return some tablespacePath
  | none =>
    match option.tablespaceMapAllPath with
    | none => return none
    | some tablespaceMapAllPath => do
      let tablespaceName ← notNull target.tablespaceName
      return some (tablespaceMapAllPath ++ '/' :: tablespaceName)

def tablespaceUpdate (manifest : Manifest) (target : ManifestTarget) :
    Option Str → Except Error Manifest
  | none => return manifest
  | some tablespacePath => do
    let manifest ← manifestTargetUpdate manifest target.name tablespacePath none
    manifestLinkUpdate manifest (manifestTargetPgData ++ '/' :: target.name) tablespacePath

/-- One round: the manifest and the keys that were used. -/
def tablespaceMapOne (option : MapOption) (state : Manifest × List Str) (targetIdx : Nat) :
    Except Error (Manifest × List Str) := do
  let target ← lstGet state.1.targetList targetIdx
  if target.tablespaceId ≠ 0 then
    let individual ← individualPath option target
    let tablespacePath ← mapAllPath option target individual
    let manifest ← tablespaceUpdate state.1 target tablespacePath
    return (manifest, state.2 ++ tablespaceKeys option target)
  else return state

def tablespacesMap (option : MapOption) (manifest : Manifest) : Except Error Manifest :=
  if option.tablespaceMap.isSome ∨ option.tablespaceMapAllPath.isSome then do
    let state ← (List.range manifest.targetList.length).foldlM (tablespaceMapOne option) (manifest, [])
    mapKeyCheck invalidTablespaceError option.tablespaceMap state.2
    return state.1
  else return manifest

def notLongEnoughError (linkPath link : Str) : Error :=
  ⟨.linkMapError, '\'' :: linkPath ++
    "' is not long enough to be the destination for file link '".toList ++ link ++ ['\'']⟩

def invalidLinkError (link : Str) : Error :=
  ⟨.linkMapError, "unable to remap invalid link '".toList ++ link ++ ['\'']⟩

def linkKey (target : ManifestTarget) : Str := target.name.drop (manifestTargetPgData.length + 1)

def linkPathGet (option : MapOption) (target : ManifestTarget) : Option Str :=
  option.linkMap.bind fun linkMap => kvGet linkMap (linkKey target)

def linkTargetUpdate (manifest : Manifest) (target : ManifestTarget) (linkPath : Str) :
    Except Error Manifest :=
  if target.file ≠ none then
    if (strPath linkPath).length = 0 then throw (notLongEnoughError linkPath (linkKey target))
    else manifestTargetUpdate manifest target.name (strPath linkPath) (some (strBase linkPath))
  else manifestTargetUpdate manifest target.name linkPath none

structure LinkState where
  manifest : Manifest
  targetIdx : Nat
  linkRemapped : List Str

def linkRemap (state : LinkState) (target : ManifestTarget) (linkPath : Str) :
    Except Error LinkState := do
  let manifest ← manifestLinkUpdate state.manifest target.name linkPath
  let manifest ← linkTargetUpdate manifest target linkPath
  return ⟨manifest, state.targetIdx + 1, state.linkRemapped ++ [linkKey target]⟩

/-- The index stays, since the next target moves to it. -/
def linkDrop (state : LinkState) (target : ManifestTarget) : Except Error LinkState := do
  let manifest ← manifestLinkRemove state.manifest target.name
  let manifest ← manifestTargetRemove manifest target.name
  return { state with manifest := manifest }

def linkMapOne (option : MapOption) (state : LinkState) : Except Error LinkState := do
  let target ← lstGet state.manifest.targetList state.targetIdx
  if target.type = .link ∧ target.tablespaceId = 0 then
    match linkPathGet option target with
    | some linkPath => linkRemap state target linkPath
    | none =>
      if option.linkAll = false then linkDrop state target
      else return { state with targetIdx := state.targetIdx + 1 }
  else return { state with targetIdx := state.targetIdx + 1 }

def linkMapLoop (option : MapOption) : Nat → LinkState → Except Error LinkState
  | 0, state => return state
  | rounds + 1, state =>
    if state.targetIdx < state.manifest.targetList.length then do
      let state ← linkMapOne option state
      linkMapLoop option rounds state
    else return state

def linksMap (option : MapOption) (manifest : Manifest) : Except Error Manifest := do
  let state ← linkMapLoop option manifest.targetList.length ⟨manifest, 0, []⟩
  mapKeyCheck invalidLinkError option.linkMap state.linkRemapped
  return state.manifest

def restoreManifestMap (option : MapOption) (manifest : Manifest) : Except Error Manifest := do
  let manifest ← dataDirectoryMap option manifest
  let manifest ← tablespacesMap option manifest
  linksMap option manifest

end Code

section Meaning

/-- What the options do with a target and its link. -/
inductive Remap where
  | keep
  | move (destination : Str)
  | remove

def tablespacePath (option : MapOption) (target : ManifestTarget) : Option Str :=
  (tablespacePathByName option target <|> tablespacePathById option target) <|>
    option.tablespaceMapAllPath.map (fun all => all ++ '/' :: target.tablespaceName.getD [])

def isTablespace (target : ManifestTarget) : Prop := target.tablespaceId ≠ 0

def isLink (target : ManifestTarget) : Prop := target.type = .link ∧ target.tablespaceId = 0

instance (target : ManifestTarget) : Decidable (isTablespace target) :=
  inferInstanceAs (Decidable (_ ≠ _))

instance (target : ManifestTarget) : Decidable (isLink target) :=
  inferInstanceAs (Decidable (_ ∧ _))

def tablespaceMapping (option : MapOption) (target : ManifestTarget) : Remap :=
  if isTablespace target then
    match tablespacePath option target with
    | some path => .move path
    | none => .keep
  else .keep

def linkMapping (option : MapOption) (target : ManifestTarget) : Remap :=
  if isLink target then
    match linkPathGet option target with
    | some path => .move path
    | none => if option.linkAll = true then .keep else .remove
  else .keep

def mapping (option : MapOption) (target : ManifestTarget) : Remap :=
  if isTablespace target then tablespaceMapping option target else linkMapping option target

def linkName (target : ManifestTarget) : Str :=
  if target.tablespaceId ≠ 0 then manifestTargetPgData ++ '/' :: target.name else target.name

def targetMove (destination : Str) (target : ManifestTarget) : ManifestTarget :=
  match target.file with
  | none => targetUpdate destination none target
  | some _ => targetUpdate (strPath destination) (some (strBase destination)) target

def targetRemap (target : ManifestTarget) : Remap → Option ManifestTarget
  | .keep => some target
  | .move destination => some (targetMove destination target)
  | .remove => none

def linkEntryRemap (link : ManifestLink) : Remap → Option ManifestLink
  | .keep => some link
  | .move destination => some (linkUpdate destination link)
  | .remove => none

def targetOf (targets : List ManifestTarget) (link : ManifestLink) : Option ManifestTarget :=
  targets.find? (fun target => target.type = .link ∧ linkName target = link.name)

def targetsRemap (r : ManifestTarget → Remap) (targets : List ManifestTarget) :
    List ManifestTarget :=
  targets.filterMap (fun target => targetRemap target (r target))

def linkFollow (r : ManifestTarget → Remap) (targets : List ManifestTarget) (link : ManifestLink) :
    Option ManifestLink :=
  match targetOf targets link with
  | none => some link
  | some target => linkEntryRemap link (r target)

def linksRemap (r : ManifestTarget → Remap) (targets : List ManifestTarget)
    (links : List ManifestLink) : List ManifestLink :=
  links.filterMap (linkFollow r targets)

def after (r : ManifestTarget → Remap) (manifest : Manifest) (done rest : List ManifestTarget) :
    Manifest :=
  { manifest with
    targetList := targetsRemap r done ++ rest
    linkList := linksRemap r done manifest.linkList }

def remapped (r : ManifestTarget → Remap) (manifest : Manifest) : Manifest :=
  { manifest with
    targetList := targetsRemap r manifest.targetList
    linkList := linksRemap r manifest.targetList manifest.linkList }

structure Keyed (manifest : Manifest) : Prop where
  targets : (manifest.targetList.map (·.name)).Nodup
  links : (manifest.linkList.map (·.name)).Nodup
  owners : ((manifest.targetList.filter (·.type = .link)).map linkName).Nodup
  linked : ∀ target ∈ manifest.targetList, target.type = .link →
    ∃ link ∈ manifest.linkList, link.name = linkName target
  tablespaces : ∀ target ∈ manifest.targetList, isTablespace target →
    target.type = .link ∧ target.file = none ∧ target.tablespaceName ≠ none

end Meaning

section Remaps

variable {r : ManifestTarget → Remap} {manifest this : Manifest}
  {done rest : List ManifestTarget} {target : ManifestTarget}

theorem targetMove_name {destination : Str} : (targetMove destination target).name = target.name := by
  unfold targetMove
  cases target.file with
  | none => rfl
  | some file => rfl

theorem targetRemap_name {mapped : ManifestTarget} {remap : Remap}
    (h : targetRemap target remap = some mapped) : mapped.name = target.name := by
  cases remap with
  | keep =>
    cases h
    rfl
  | move destination =>
    cases h
    exact targetMove_name
  | remove => cases h

theorem linkEntryRemap_name {link mapped : ManifestLink} {remap : Remap}
    (h : linkEntryRemap link remap = some mapped) : mapped.name = link.name := by
  cases remap with
  | keep =>
    cases h
    rfl
  | move destination =>
    cases h
    rfl
  | remove => cases h

theorem linkFollow_name {link mapped : ManifestLink} (h : linkFollow r done link = some mapped) :
    mapped.name = link.name := by
  unfold linkFollow at h
  cases owner : targetOf done link with
  | none =>
    rw [owner] at h
    cases h
    rfl
  | some t =>
    rw [owner] at h
    exact linkEntryRemap_name h

theorem nodup_filterMap {α β κ : Type} {f : α → Option β} {key : α → κ} {key' : β → κ}
    {as : List α} (keeps : ∀ a b, f a = some b → key' b = key a) (distinct : (as.map key).Nodup) :
    ((as.filterMap f).map key').Nodup := by
  refine distinct.sublist ?_
  induction as with
  | nil => exact List.Sublist.slnil
  | cons a as ih =>
    rw [List.filterMap_cons]
    cases h : f a with
    | none => exact (ih (List.nodup_cons.mp distinct).2).cons (key a)
    | some b =>
      rw [List.map_cons, List.map_cons, keeps a b h]
      exact (ih (List.nodup_cons.mp distinct).2).cons_cons (key a)

theorem linksRemap_distinct (keyed : Keyed manifest) (targets : List ManifestTarget) :
    ((linksRemap r targets manifest.linkList).map (·.name)).Nodup :=
  nodup_filterMap (fun _ _ follow => linkFollow_name follow) keyed.links

theorem targetsRemap_concat :
    targetsRemap r (done ++ [target]) = targetsRemap r done ++ (targetRemap target (r target)).toList := by
  unfold targetsRemap
  rw [List.filterMap_append]
  cases h : targetRemap target (r target) with
  | none => simp [h]
  | some mapped => simp [h]

theorem targetsRemap_fresh (fresh : ∀ a ∈ done, a.name ≠ target.name) :
    ∀ a ∈ targetsRemap r done, a.name ≠ target.name := by
  intro a ha
  obtain ⟨b, hb, mapped⟩ := List.mem_filterMap.mp ha
  rw [targetRemap_name mapped]
  exact fresh b hb

theorem targetOf_none (fresh : ∀ a ∈ done, a.type = .link → linkName a ≠ linkName target)
    {link : ManifestLink} (named : link.name = linkName target) : targetOf done link = none := by
  refine List.find?_eq_none.mpr fun a ha => ?_
  rw [decide_eq_true_iff, not_and, named]
  exact fresh a ha

theorem linksRemap_concat (isLink : target.type = .link)
    (fresh : ∀ a ∈ done, a.type = .link → linkName a ≠ linkName target) (links : List ManifestLink) :
    linksRemap r (done ++ [target]) links = (linksRemap r done links).filterMap fun link =>
      if link.name = linkName target then linkEntryRemap link (r target) else some link := by
  unfold linksRemap
  rw [List.filterMap_filterMap]
  congr 1
  funext link
  have split : targetOf (done ++ [target]) link =
      (targetOf done link).or (if linkName target = link.name then some target else none) := by
    unfold targetOf
    rw [List.find?_append, List.find?_singleton]
    simp [isLink]
  by_cases named : link.name = linkName target
  · have none : targetOf done link = none := targetOf_none fresh named
    simp [linkFollow, split, none, named]
  · have follow : linkFollow r (done ++ [target]) link = linkFollow r done link := by
      unfold linkFollow
      rw [split, if_neg (fun same => named same.symm), Option.or_none]
    rw [follow]
    cases h : linkFollow r done link with
    | none => rfl
    | some mapped =>
      have other : mapped.name ≠ linkName target := by
        rw [linkFollow_name h]
        exact named
      rw [Option.bind_some, if_neg other]

theorem linksRemap_other (other : target.type ≠ .link) (links : List ManifestLink) :
    linksRemap r (done ++ [target]) links = linksRemap r done links := by
  unfold linksRemap linkFollow targetOf
  simp [List.find?_append, other]

/-- A target that is kept changes nothing. -/
theorem after_keep (keep : r target = .keep)
    (fresh : ∀ a ∈ done, a.type = .link → target.type = .link → linkName a ≠ linkName target) :
    after r manifest (done ++ [target]) rest = after r manifest done (target :: rest) := by
  have targets : targetsRemap r (done ++ [target]) = targetsRemap r done ++ [target] := by
    rw [targetsRemap_concat, keep]
    rfl
  have links : linksRemap r (done ++ [target]) manifest.linkList =
      linksRemap r done manifest.linkList := by
    by_cases isLink : target.type = .link
    · rw [linksRemap_concat isLink (fun a ha link => fresh a ha link isLink), keep]
      refine (List.filterMap_congr fun link _ => ?_).trans (List.filterMap_some)
      simp [linkEntryRemap]
    · exact linksRemap_other isLink manifest.linkList
  unfold after
  rw [targets, links, List.append_assoc, List.singleton_append]

end Remaps

section Steps

variable {r : ManifestTarget → Remap} {manifest : Manifest} {done rest : List ManifestTarget}
  {target : ManifestTarget}

theorem Keyed.fresh_name (keyed : Keyed manifest)
    (split : manifest.targetList = done ++ target :: rest) : ∀ a ∈ done, a.name ≠ target.name := by
  have distinct := keyed.targets
  rw [split, List.map_append, List.map_cons] at distinct
  intro a ha same
  have apart := (List.nodup_append.mp distinct).2.2
  exact apart _ (List.mem_map_of_mem ha) _ List.mem_cons_self same

theorem Keyed.fresh_owner (keyed : Keyed manifest)
    (split : manifest.targetList = done ++ target :: rest) :
    ∀ a ∈ done, a.type = .link → target.type = .link → linkName a ≠ linkName target := by
  intro a ha first second same
  have distinct := keyed.owners
  rw [split, List.filter_append, List.filter_cons_of_pos (by simp [second]), List.map_append,
    List.map_cons] at distinct
  have apart := (List.nodup_append.mp distinct).2.2
  exact apart _ (List.mem_map_of_mem (List.mem_filter.mpr ⟨ha, by simp [first]⟩)) _
    List.mem_cons_self same

theorem Keyed.link_waits (keyed : Keyed manifest)
    (split : manifest.targetList = done ++ target :: rest) (isLink : target.type = .link) :
    ∃ link ∈ linksRemap r done manifest.linkList, link.name = linkName target := by
  obtain ⟨link, member, named⟩ := keyed.linked target (by simp [split]) isLink
  refine ⟨link, List.mem_filterMap.mpr ⟨link, member, ?_⟩, named⟩
  have none : targetOf done link = none :=
    targetOf_none (fun a ha first => keyed.fresh_owner split a ha first isLink) named
  unfold linkFollow
  rw [none]

variable (keyed : Keyed manifest) (split : manifest.targetList = done ++ target :: rest)

include keyed split

theorem targetUpdate_after {path : Str} {file : Option Str} {links : List ManifestLink} :
    manifestTargetUpdate { after r manifest done (target :: rest) with linkList := links }
        target.name path file =
      .ok { manifest with
        targetList := targetsRemap r done ++ targetUpdate path file target :: rest
        linkList := links } :=
  manifestTargetUpdate_append rfl (targetsRemap_fresh (keyed.fresh_name split))

theorem linkUpdate_after (isLink : target.type = .link) {destination : Str}
    (move : r target = .move destination) {targets : List ManifestTarget} :
    manifestLinkUpdate { after r manifest done (target :: rest) with targetList := targets }
        (linkName target) destination =
      .ok { manifest with
        targetList := targets
        linkList := linksRemap r (done ++ [target]) manifest.linkList } := by
  obtain ⟨link, member, named⟩ := @Keyed.link_waits r _ _ _ _ keyed split isLink
  have fresh : ∀ a ∈ done, a.type = .link → linkName a ≠ linkName target :=
    fun a ha first => keyed.fresh_owner split a ha first isLink
  have update := @manifestLinkUpdate_eq
    { after r manifest done (target :: rest) with targetList := targets } link
    (linksRemap_distinct keyed done) member destination
  have links : (linksRemap r done manifest.linkList).map (fun other =>
      if other.name = link.name then linkUpdate destination other else other) =
      linksRemap r (done ++ [target]) manifest.linkList := by
    rw [linksRemap_concat isLink fresh, move, named, ← List.filterMap_eq_map]
    refine List.filterMap_congr fun other _ => ?_
    by_cases same : other.name = linkName target
    · simp [same, linkEntryRemap]
    · simp [same]
  rw [named] at update links
  rw [update]
  unfold after
  dsimp only
  rw [links]

theorem linkRemove_after (isLink : target.type = .link) (remove : r target = .remove) :
    manifestLinkRemove (after r manifest done (target :: rest)) (linkName target) =
      .ok { after r manifest done (target :: rest) with
        linkList := linksRemap r (done ++ [target]) manifest.linkList } := by
  obtain ⟨link, member, named⟩ := @Keyed.link_waits r _ _ _ _ keyed split isLink
  have fresh : ∀ a ∈ done, a.type = .link → linkName a ≠ linkName target :=
    fun a ha first => keyed.fresh_owner split a ha first isLink
  have erase := @manifestLinkRemove_eq (after r manifest done (target :: rest)) link
    (linksRemap_distinct keyed done) member
  have links : (linksRemap r done manifest.linkList).filter (fun other => other.name ≠ link.name) =
      linksRemap r (done ++ [target]) manifest.linkList := by
    rw [linksRemap_concat isLink fresh, remove, named, ← List.filterMap_eq_filter]
    refine List.filterMap_congr fun other _ => ?_
    by_cases same : other.name = linkName target
    · simp [same, linkEntryRemap, Option.guard]
    · simp [same, Option.guard]
  rw [named] at erase links
  rw [erase]
  unfold after
  dsimp only
  rw [links]

theorem targetRemove_after {links : List ManifestLink} :
    manifestTargetRemove { after r manifest done (target :: rest) with linkList := links }
        target.name =
      .ok { manifest with targetList := targetsRemap r done ++ rest, linkList := links } :=
  manifestTargetRemove_append rfl (targetsRemap_fresh (keyed.fresh_name split))

end Steps

section Tablespaces

variable {option : MapOption} {manifest : Manifest} {done rest : List ManifestTarget}
  {target : ManifestTarget}

def Agree (option : MapOption) (target : ManifestTarget) : Prop :=
  ∀ pathByName pathById, tablespacePathByName option target = some pathByName →
    tablespacePathById option target = some pathById → pathByName = pathById

theorem individualPath_decides : Decides (individualPath option target) (Agree option target)
    (tablespacePathByName option target <|> tablespacePathById option target) := by
  unfold individualPath Agree
  cases tablespacePathByName option target with
  | none => exact (Decides.of_eq rfl).congr (by simp) rfl
  | some pathByName =>
    cases tablespacePathById option target with
    | none => exact (Decides.of_eq rfl).congr (by simp) rfl
    | some pathById =>
      dsimp only
      by_cases same : pathByName = pathById
      · subst same
        rw [if_neg (fun differ => differ rfl)]
        exact (Decides.of_eq rfl).congr (by simp) rfl
      · rw [if_pos same]
        exact Decides.of_error rfl fun agree => same (agree _ _ rfl rfl)

theorem mapAllPath_eq (named : target.tablespaceName ≠ none) {individual : Option Str} :
    mapAllPath option target individual = .ok (individual <|> option.tablespaceMapAllPath.map
      (fun all => all ++ '/' :: target.tablespaceName.getD [])) := by
  unfold mapAllPath
  cases individual with
  | some path => rfl
  | none =>
    cases option.tablespaceMapAllPath with
    | none => rfl
    | some all =>
      cases name : target.tablespaceName with
      | none => exact absurd name named
      | some tablespaceName => rfl

theorem tablespaceMapping_of (tablespace : isTablespace target) :
    tablespaceMapping option target = match tablespacePath option target with
      | some path => .move path
      | none => .keep :=
  if_pos tablespace

theorem tablespaceUpdate_after (keyed : Keyed manifest)
    (split : manifest.targetList = done ++ target :: rest) (tablespace : isTablespace target) :
    tablespaceUpdate (after (tablespaceMapping option) manifest done (target :: rest)) target
        (tablespacePath option target) =
      .ok (after (tablespaceMapping option) manifest (done ++ [target]) rest) := by
  obtain ⟨isLink, file, -⟩ := keyed.tablespaces target (by simp [split]) tablespace
  have mapping := @tablespaceMapping_of option target tablespace
  cases path : tablespacePath option target with
  | none =>
    rw [path] at mapping
    rw [after_keep mapping (keyed.fresh_owner split)]
    rfl
  | some destination =>
    rw [path] at mapping
    have name : linkName target = manifestTargetPgData ++ '/' :: target.name := if_pos tablespace
    have moved : targetRemap target (tablespaceMapping option target) =
        some (targetUpdate destination none target) := by
      rw [mapping, targetRemap, targetMove, file]
    have target_update := @targetUpdate_after (tablespaceMapping option) _ _ _ _ keyed split
      destination none (linksRemap (tablespaceMapping option) done manifest.linkList)
    have link_update := @linkUpdate_after _ _ _ _ _ keyed split isLink destination mapping
      (targetsRemap (tablespaceMapping option) done ++ targetUpdate destination none target :: rest)
    refine except_bind_ok_iff.mpr ⟨_, target_update, ?_⟩
    rw [← name]
    refine link_update.trans ?_
    unfold after
    rw [targetsRemap_concat, moved]
    simp

def usedKeys (option : MapOption) (targets : List ManifestTarget) : List Str :=
  (targets.filter (fun target => isTablespace target)).flatMap (tablespaceKeys option)

variable {r : ManifestTarget → Remap}

theorem lstGet_after :
    lstGet (after r manifest done (target :: rest)).targetList (targetsRemap r done).length =
      .ok target := by
  simp [lstGet, after]

theorem tablespaceMapOne_decides (keyed : Keyed manifest)
    (split : manifest.targetList = done ++ target :: rest) :
    Decides (tablespaceMapOne option (after (tablespaceMapping option) manifest done (target :: rest),
        usedKeys option done) (targetsRemap (tablespaceMapping option) done).length)
      (isTablespace target → Agree option target)
      (after (tablespaceMapping option) manifest (done ++ [target]) rest,
        usedKeys option (done ++ [target])) := by
  refine Decides.after lstGet_after ?_
  by_cases tablespace : isTablespace target
  · have id : target.tablespaceId ≠ 0 := tablespace
    obtain ⟨-, -, named⟩ := keyed.tablespaces target (by simp [split]) tablespace
    have update := @tablespaceUpdate_after option _ _ _ _ keyed split tablespace
    have keys : usedKeys option (done ++ [target]) =
        usedKeys option done ++ tablespaceKeys option target := by
      simp [usedKeys, tablespace]
    rw [if_pos id, keys]
    refine (individualPath_decides.bind (Decides.after (mapAllPath_eq named) (Q := True) ?_)).congr
      (by simp [tablespace]) rfl
    rw [← tablespacePath]
    exact Decides.after update (Decides.of_eq rfl)
  · have id : ¬ target.tablespaceId ≠ 0 := tablespace
    have kept : after (tablespaceMapping option) manifest (done ++ [target]) rest =
        after (tablespaceMapping option) manifest done (target :: rest) :=
      after_keep (if_neg tablespace) (keyed.fresh_owner split)
    have keys : usedKeys option (done ++ [target]) = usedKeys option done := by
      simp [usedKeys, tablespace]
    rw [if_neg id, kept, keys]
    exact (Decides.of_eq rfl).congr (by simp [tablespace]) rfl

theorem targetsRemap_length (stays : ∀ target, r target ≠ .remove) (targets : List ManifestTarget) :
    (targetsRemap r targets).length = targets.length := by
  refine List.filterMap_length_eq_length.mpr fun target _ => ?_
  cases h : r target with
  | keep => rfl
  | move destination => rfl
  | remove => exact absurd h (stays target)

theorem tablespaceMapping_stays (target : ManifestTarget) :
    tablespaceMapping option target ≠ .remove := by
  by_cases tablespace : isTablespace target
  · rw [tablespaceMapping_of tablespace]
    cases tablespacePath option target with
    | none => exact nofun
    | some path => exact nofun
  · unfold tablespaceMapping
    rw [if_neg tablespace]
    exact nofun

theorem tablespaces_loop (keyed : Keyed manifest) (split : manifest.targetList = done ++ rest) :
    Decides ((List.range' done.length rest.length).foldlM (tablespaceMapOne option)
        (after (tablespaceMapping option) manifest done rest, usedKeys option done))
      (∀ target ∈ rest, isTablespace target → Agree option target)
      (after (tablespaceMapping option) manifest (done ++ rest) [],
        usedKeys option (done ++ rest)) := by
  induction rest generalizing done with
  | nil => exact (Decides.of_eq rfl).congr (by simp) (by rw [List.append_nil])
  | cons target rest ih =>
    have index : (targetsRemap (tablespaceMapping option) done).length = done.length :=
      targetsRemap_length tablespaceMapping_stays done
    have next : done.length + 1 = (done ++ [target]).length := by simp
    have later : manifest.targetList = (done ++ [target]) ++ rest := by simp [split]
    have shape : done ++ target :: rest = (done ++ [target]) ++ rest := by simp
    have one := @tablespaceMapOne_decides option _ _ _ _ keyed split
    rw [index] at one
    rw [List.length_cons, List.range'_succ, List.foldlM_cons, next, shape]
    exact (one.bind (ih later)).congr (by rw [List.forall_mem_cons]) rfl

theorem mapKeyCheck_decides {invalidError : Str → Error} {map : Option (List (Str × Str))}
    {keys : List Str} : Decides (mapKeyCheck invalidError map keys)
      (∀ pairs, map = some pairs → ∀ key ∈ kvKeyList pairs, key ∈ keys) () := by
  cases map with
  | none => exact (Decides.of_eq rfl).congr (by simp) rfl
  | some pairs =>
    suffices each : Decides (mapKeyCheck invalidError (some pairs) keys)
        (∀ key ∈ kvKeyList pairs, key ∈ keys) () from each.congr (by simp) rfl
    unfold mapKeyCheck
    dsimp only
    induction kvKeyList pairs with
    | nil => exact (Decides.of_eq rfl).congr (by simp) rfl
    | cons key rest ih =>
      rw [List.forM_eq_forM, List.forM_cons, List.forall_mem_cons]
      by_cases used : key ∈ keys
      · rw [if_pos used]
        exact (Decides.after rfl ih).congr (by simp [used]) rfl
      · rw [if_neg used]
        exact Decides.of_error rfl fun all => used all.1

theorem kvGet_isSome_iff {pairs : List (Str × Str)} {key : Str} :
    (kvGet pairs key).isSome = true ↔ key ∈ kvKeyList pairs := by
  unfold kvGet kvKeyList
  simp

theorem mem_tablespaceKeys_iff {pairs : List (Str × Str)} (isMap : option.tablespaceMap = some pairs)
    {key : Str} (listed : key ∈ kvKeyList pairs) :
    key ∈ tablespaceKeys option target ↔
      target.tablespaceName = some key ∨ fmtUInt target.tablespaceId = key := by
  have found : (kvGet pairs key).isSome = true := kvGet_isSome_iff.mpr listed
  have byName : tablespacePathByName option target = target.tablespaceName.bind (kvGet pairs) := by
    unfold tablespacePathByName
    rw [isMap]
    rfl
  have byId : tablespacePathById option target = kvGet pairs (fmtUInt target.tablespaceId) := by
    unfold tablespacePathById
    rw [isMap]
    rfl
  unfold tablespaceKeys
  rw [byName, byId, List.mem_append]
  refine or_congr ?_ ?_
  · cases name : target.tablespaceName with
    | none => simp
    | some tablespaceName =>
      constructor
      · intro mem
        by_cases used : (kvGet pairs tablespaceName).isSome = true
        · simp only [Option.bind_some, used, if_true, Option.getD_some, List.mem_singleton] at mem
          rw [mem]
        · simp [used] at mem
      · rintro ⟨⟩
        simp [found]
  · constructor
    · intro mem
      by_cases used : (kvGet pairs (fmtUInt target.tablespaceId)).isSome = true
      · simp only [used, if_true, List.mem_singleton] at mem
        exact mem.symm
      · simp [used] at mem
    · rintro rfl
      simp [found]

@[mk_iff]
structure TablespacesFit (option : MapOption) (targets : List ManifestTarget) : Prop where
  named : ∀ pairs, option.tablespaceMap = some pairs → ∀ key ∈ kvKeyList pairs,
    ∃ target ∈ targets, isTablespace target ∧
      (target.tablespaceName = some key ∨ fmtUInt target.tablespaceId = key)
  agree : ∀ target ∈ targets, isTablespace target → Agree option target

theorem usedKeys_all_iff {targets : List ManifestTarget} :
    (∀ pairs, option.tablespaceMap = some pairs → ∀ key ∈ kvKeyList pairs,
        key ∈ usedKeys option targets) ↔
      ∀ pairs, option.tablespaceMap = some pairs → ∀ key ∈ kvKeyList pairs,
        ∃ target ∈ targets, isTablespace target ∧
          (target.tablespaceName = some key ∨ fmtUInt target.tablespaceId = key) := by
  refine forall₂_congr fun pairs isMap => forall₂_congr fun key listed => ?_
  unfold usedKeys
  simp only [List.mem_flatMap, List.mem_filter, decide_eq_true_iff,
    mem_tablespaceKeys_iff isMap listed, and_assoc]

theorem remapped_keep (keep : ∀ target, r target = .keep) :
    remapped r manifest = manifest := by
  have targets : targetsRemap r manifest.targetList = manifest.targetList := by
    unfold targetsRemap
    refine (List.filterMap_congr fun target _ => ?_).trans List.filterMap_some
    rw [keep]
    rfl
  have links : linksRemap r manifest.targetList manifest.linkList = manifest.linkList := by
    unfold linksRemap
    refine (List.filterMap_congr fun link _ => ?_).trans List.filterMap_some
    unfold linkFollow
    cases targetOf manifest.targetList link with
    | none => rfl
    | some target =>
      dsimp only
      rw [keep]
      rfl
  unfold remapped
  rw [targets, links]

theorem after_nil : after r manifest [] manifest.targetList = manifest := by
  have links : linksRemap r [] manifest.linkList = manifest.linkList := List.filterMap_some
  unfold after
  rw [links]
  rfl

theorem after_all :
    after r manifest manifest.targetList [] = remapped r manifest := by
  unfold after remapped
  rw [List.append_nil]

/-- Without a map no tablespace is asked to move. -/
theorem tablespaceMapping_none (map : option.tablespaceMap = none)
    (all : option.tablespaceMapAllPath = none) (target : ManifestTarget) :
    tablespaceMapping option target = .keep := by
  have path : tablespacePath option target = none := by
    unfold tablespacePath tablespacePathByName tablespacePathById
    rw [map, all]
    rfl
  unfold tablespaceMapping
  rw [path]
  exact ite_self Remap.keep

theorem tablespacesMap_decides (keyed : Keyed manifest) :
    Decides (tablespacesMap option manifest) (TablespacesFit option manifest.targetList)
      (remapped (tablespaceMapping option) manifest) := by
  unfold tablespacesMap
  by_cases asked : option.tablespaceMap.isSome ∨ option.tablespaceMapAllPath.isSome
  · rw [if_pos asked, List.range_eq_range']
    have loop := @tablespaces_loop option manifest [] manifest.targetList keyed rfl
    rw [after_nil, List.nil_append, after_all] at loop
    refine (loop.bind (mapKeyCheck_decides.map _)).congr ?_ rfl
    rw [usedKeys_all_iff]
    exact ⟨fun both => ⟨both.2, both.1⟩, fun fit => ⟨fit.agree, fit.named⟩⟩
  · rw [not_or, Option.not_isSome_iff_eq_none, Option.not_isSome_iff_eq_none] at asked
    obtain ⟨map, all⟩ := asked
    have unasked : ¬ (option.tablespaceMap.isSome = true ∨
        option.tablespaceMapAllPath.isSome = true) := by simp [map, all]
    rw [if_neg unasked, remapped_keep (tablespaceMapping_none map all)]
    refine (Decides.of_eq rfl).congr (iff_of_true trivial ?_) rfl
    refine ⟨fun pairs isMap => ?_, fun target _ _ pathByName _ byName => ?_⟩
    · rw [map] at isMap
      cases isMap
    · unfold tablespacePathByName at byName
      rw [map] at byName
      cases byName

end Tablespaces

section Links

variable {option : MapOption} {manifest : Manifest} {done rest : List ManifestTarget}
  {target : ManifestTarget}

/-- The destination mapped for a file link has a path part. -/
def LongEnough (option : MapOption) (target : ManifestTarget) : Prop :=
  target.file ≠ none → ∀ linkPath, linkPathGet option target = some linkPath → strPath linkPath ≠ []

def usedLinks (option : MapOption) (targets : List ManifestTarget) : List Str :=
  (targets.filter (fun target => isLink target ∧ (linkPathGet option target).isSome)).map linkKey

/-- What the loop holds when some targets are done. -/
def linkState (option : MapOption) (manifest : Manifest) (done rest : List ManifestTarget) : LinkState :=
  ⟨after (linkMapping option) manifest done rest, (targetsRemap (linkMapping option) done).length,
    usedLinks option done⟩

theorem linkName_of_link (link : isLink target) : linkName target = target.name :=
  if_neg fun tablespace => tablespace link.2

theorem linkTargetUpdate_decides {this : Manifest} {linkPath : Str}
    (runs : ∀ path file, manifestTargetUpdate this target.name path file =
      .ok { this with targetList := done ++ targetUpdate path file target :: rest }) :
    Decides (linkTargetUpdate this target linkPath) (target.file ≠ none → strPath linkPath ≠ [])
      { this with targetList := done ++ targetMove linkPath target :: rest } := by
  unfold linkTargetUpdate
  cases file : target.file with
  | none =>
    rw [if_neg (fun some => some rfl), runs, targetMove, file]
    exact (Decides.of_eq rfl).congr (by simp) rfl
  | some name =>
    rw [if_pos nofun, runs, targetMove, file]
    by_cases short : (strPath linkPath).length = 0
    · rw [if_pos short]
      exact Decides.of_error rfl fun long => long nofun (List.length_eq_zero_iff.mp short)
    · rw [if_neg short]
      exact (Decides.of_eq rfl).congr (by simpa using short) rfl

section Round

variable (keyed : Keyed manifest) (split : manifest.targetList = done ++ target :: rest)

include keyed split

theorem linkRemap_decides (link : isLink target) {linkPath : Str}
    (mapped : linkPathGet option target = some linkPath) :
    Decides (linkRemap (linkState option manifest done (target :: rest)) target linkPath)
      (LongEnough option target) (linkState option manifest (done ++ [target]) rest) := by
  have move : linkMapping option target = .move linkPath := by
    rw [linkMapping, if_pos link, mapped]
  have link_update := @linkUpdate_after _ _ _ _ _ keyed split link.1 linkPath move
    (targetsRemap (linkMapping option) done ++ target :: rest)
  rw [linkName_of_link link] at link_update
  have target_update := @linkTargetUpdate_decides (targetsRemap (linkMapping option) done) rest target
    { manifest with
      targetList := targetsRemap (linkMapping option) done ++ target :: rest
      linkList := linksRemap (linkMapping option) (done ++ [target]) manifest.linkList }
    linkPath (fun path file => targetUpdate_after keyed split)
  have long : (target.file ≠ none → strPath linkPath ≠ []) ↔ LongEnough option target := by
    unfold LongEnough
    simp [mapped]
  refine (Decides.after link_update (target_update.map _)).congr long ?_
  · unfold linkState after usedLinks
    rw [targetsRemap_concat, move, targetRemap]
    simp [link, mapped]

theorem linkDrop_eq (link : isLink target) (unmapped : linkPathGet option target = none)
    (drop : option.linkAll = false) :
    linkDrop (linkState option manifest done (target :: rest)) target =
      .ok (linkState option manifest (done ++ [target]) rest) := by
  have remove : linkMapping option target = .remove := by
    rw [linkMapping, if_pos link, unmapped, drop]
    rfl
  have link_remove := linkRemove_after keyed split link.1 remove
  rw [linkName_of_link link] at link_remove
  have target_remove := @targetRemove_after (linkMapping option) _ _ _ _ keyed split
    (linksRemap (linkMapping option) (done ++ [target]) manifest.linkList)
  have targets : targetsRemap (linkMapping option) (done ++ [target]) =
      targetsRemap (linkMapping option) done := by
    rw [targetsRemap_concat, remove]
    exact List.append_nil _
  refine except_bind_ok_iff.mpr ⟨_, link_remove, except_bind_ok_iff.mpr ⟨_, target_remove, ?_⟩⟩
  unfold linkState after usedLinks
  rw [targets]
  simp [unmapped]
  rfl

theorem linkState_keep (keep : linkMapping option target = .keep)
    (unused : ¬ (isLink target ∧ (linkPathGet option target).isSome = true)) :
    { linkState option manifest done (target :: rest) with
        targetIdx := (targetsRemap (linkMapping option) done).length + 1 } =
      linkState option manifest (done ++ [target]) rest := by
  have kept := @after_keep (linkMapping option) manifest _ rest _ keep (keyed.fresh_owner split)
  have used : usedLinks option (done ++ [target]) = usedLinks option done := by
    simp only [usedLinks, List.filter_append, List.filter_singleton, unused]
    simp
  unfold linkState
  rw [kept, used, targetsRemap_concat, keep]
  simp [targetRemap]

theorem linkMapOne_decides :
    Decides (linkMapOne option (linkState option manifest done (target :: rest)))
      (isLink target → LongEnough option target)
      (linkState option manifest (done ++ [target]) rest) := by
  have get : linkMapOne option (linkState option manifest done (target :: rest)) =
      if target.type = .link ∧ target.tablespaceId = 0 then
        match linkPathGet option target with
        | some linkPath => linkRemap (linkState option manifest done (target :: rest)) target linkPath
        | none =>
          if option.linkAll = false then
            linkDrop (linkState option manifest done (target :: rest)) target
          else return { linkState option manifest done (target :: rest) with
            targetIdx := (targetsRemap (linkMapping option) done).length + 1 }
      else return { linkState option manifest done (target :: rest) with
        targetIdx := (targetsRemap (linkMapping option) done).length + 1 } := by
    have listed : lstGet (linkState option manifest done (target :: rest)).manifest.targetList
        (linkState option manifest done (target :: rest)).targetIdx = .ok target := lstGet_after
    unfold linkMapOne
    rw [listed]
    rfl
  rw [get]
  by_cases link : isLink target
  · have holds : target.type = .link ∧ target.tablespaceId = 0 := link
    rw [if_pos holds, forall_prop_of_true link]
    cases mapped : linkPathGet option target with
    | some linkPath => exact linkRemap_decides keyed split link mapped
    | none =>
      have long : LongEnough option target := by
        unfold LongEnough
        simp [mapped]
      dsimp only
      by_cases drop : option.linkAll = false
      · rw [if_pos drop, linkDrop_eq keyed split link mapped drop]
        exact (Decides.of_eq rfl).congr (iff_of_true trivial long) rfl
      · have keep : linkMapping option target = .keep := by
          rw [linkMapping, if_pos link, mapped]
          exact if_pos (by simpa using drop)
        rw [if_neg drop, linkState_keep keyed split keep (by simp [mapped])]
        exact (Decides.of_eq rfl).congr (iff_of_true trivial long) rfl
  · have fails : ¬ (target.type = .link ∧ target.tablespaceId = 0) := link
    rw [if_neg fails, linkState_keep keyed split (if_neg link) (fun used => link used.1)]
    exact (Decides.of_eq rfl).congr (by simp [link]) rfl

end Round

theorem links_loop (keyed : Keyed manifest) (split : manifest.targetList = done ++ rest)
    {rounds : Nat} (enough : rest.length ≤ rounds) :
    Decides (linkMapLoop option rounds (linkState option manifest done rest))
      (∀ target ∈ rest, isLink target → LongEnough option target)
      (linkState option manifest (done ++ rest) []) := by
  induction rest generalizing done rounds with
  | nil =>
    have stop : linkMapLoop option rounds (linkState option manifest done []) =
        .ok (linkState option manifest done []) := by
      cases rounds with
      | zero => rfl
      | succ rounds =>
        rw [linkMapLoop, if_neg]
        · rfl
        · simp [linkState, after]
    exact (Decides.of_eq stop).congr (by simp) (by rw [List.append_nil])
  | cons target rest ih =>
    have later : manifest.targetList = (done ++ [target]) ++ rest := by simp [split]
    have shape : done ++ target :: rest = (done ++ [target]) ++ rest := by simp
    cases rounds with
    | zero => simp at enough
    | succ rounds =>
      have few : rest.length ≤ rounds := by simpa using enough
      have inside : (linkState option manifest done (target :: rest)).targetIdx <
          (linkState option manifest done (target :: rest)).manifest.targetList.length := by
        simp [linkState, after]
      rw [linkMapLoop, if_pos inside, shape]
      exact ((linkMapOne_decides keyed split).bind (ih later few)).congr
        (by rw [List.forall_mem_cons]) rfl

@[mk_iff]
structure LinksFit (option : MapOption) (targets : List ManifestTarget) : Prop where
  named : ∀ pairs, option.linkMap = some pairs → ∀ key ∈ kvKeyList pairs,
    ∃ target ∈ targets, isLink target ∧ linkKey target = key
  long : ∀ target ∈ targets, isLink target → LongEnough option target

theorem usedLinks_all_iff {targets : List ManifestTarget} :
    (∀ pairs, option.linkMap = some pairs → ∀ key ∈ kvKeyList pairs,
        key ∈ usedLinks option targets) ↔
      ∀ pairs, option.linkMap = some pairs → ∀ key ∈ kvKeyList pairs,
        ∃ target ∈ targets, isLink target ∧ linkKey target = key := by
  refine forall₂_congr fun pairs isMap => forall₂_congr fun key listed => ?_
  have found : (kvGet pairs key).isSome = true := kvGet_isSome_iff.mpr listed
  have path : ∀ target, linkPathGet option target = kvGet pairs (linkKey target) := by
    intro target
    unfold linkPathGet
    rw [isMap]
    rfl
  unfold usedLinks
  simp only [List.mem_map, List.mem_filter, decide_eq_true_iff, path, and_assoc]
  refine exists_congr fun target => and_congr_right fun _ => and_congr_right fun _ => ?_
  constructor
  · exact fun used => used.2
  · rintro rfl
    exact ⟨found, rfl⟩

theorem linksMap_decides (keyed : Keyed manifest) :
    Decides (linksMap option manifest) (LinksFit option manifest.targetList)
      (remapped (linkMapping option) manifest) := by
  have start : linkState option manifest [] manifest.targetList = ⟨manifest, 0, []⟩ := by
    unfold linkState
    rw [after_nil]
    rfl
  have loop := @links_loop option manifest [] _ keyed rfl _ (Nat.le_refl _)
  rw [start, List.nil_append] at loop
  refine (loop.bind (mapKeyCheck_decides.map _)).congr ?_ after_all
  dsimp only [linkState]
  rw [usedLinks_all_iff]
  exact ⟨fun both => ⟨both.2, both.1⟩, fun fit => ⟨fit.long, fit.named⟩⟩

end Links

section Base

variable {option : MapOption} {manifest : Manifest}

/-- The data directory with its configured path. -/
def baseMove (option : MapOption) (target : ManifestTarget) : ManifestTarget :=
  if target.name = manifestTargetPgData then { target with path := some option.pgPath } else target

structure Based (manifest : Manifest) : Prop where
  base : ∃ target ∈ manifest.targetList, target.name = manifestTargetPgData
  plain : ∀ target ∈ manifest.targetList, target.name = manifestTargetPgData →
    target.type = .path ∧ target.tablespaceId = 0 ∧ target.file = none

def based (option : MapOption) (manifest : Manifest) : Manifest :=
  { manifest with targetList := manifest.targetList.map (baseMove option) }

theorem dataDirectoryMap_eq (keyed : Keyed manifest) (isBased : Based manifest) :
    dataDirectoryMap option manifest = .ok (based option manifest) := by
  obtain ⟨base, member, name⟩ := isBased.base
  obtain ⟨-, -, file⟩ := isBased.plain base member name
  have found : manifestTargetFind manifest manifestTargetPgData = .ok base := by
    unfold manifestTargetFind
    rw [(KeyedList.find_iff keyed.targets).mpr ⟨member, name⟩]
  have only : ∀ target ∈ manifest.targetList, target.name = manifestTargetPgData → target = base :=
    fun target mem named => List.inj_on_of_nodup_map keyed.targets mem member (named.trans name.symm)
  unfold dataDirectoryMap manifestTargetBase
  refine except_bind_ok_iff.mpr ⟨base, found, ?_⟩
  by_cases moves : base.path ≠ some option.pgPath
  · have moved : KeyedList.changeFirst (·.name) base.name (targetUpdate option.pgPath none)
        manifest.targetList = manifest.targetList.map (baseMove option) := by
      rw [KeyedList.changeFirst_eq_map keyed.targets, name]
      refine List.map_congr_left fun target mem => ?_
      unfold baseMove
      by_cases named : target.name = manifestTargetPgData
      · have same := only target mem named
        subst same
        rw [if_pos named, if_pos named, targetUpdate, ← file]
      · rw [if_neg named, if_neg named]
    rw [if_pos moves]
    unfold manifestTargetUpdate
    rw [moved, name, found]
    rfl
  · have unmoved : manifest.targetList.map (baseMove option) = manifest.targetList := by
      refine (List.map_congr_left fun target mem => ?_).trans (List.map_id' _)
      unfold baseMove
      by_cases named : target.name = manifestTargetPgData
      · have same := only target mem named
        subst same
        have path : target.path = some option.pgPath := not_not.mp moves
        rw [if_pos named, ← path]
      · rw [if_neg named]
    rw [if_neg moves]
    unfold based
    rw [unmoved]
    rfl

end Base

section Passes

variable {option : MapOption} {manifest : Manifest} {r : ManifestTarget → Remap}
  {f : ManifestTarget → ManifestTarget}

/-- A pass changes where a target is, not what it is. -/
structure Retains (f : ManifestTarget → ManifestTarget) : Prop where
  name : ∀ target, (f target).name = target.name
  type : ∀ target, (f target).type = target.type
  tablespaceId : ∀ target, (f target).tablespaceId = target.tablespaceId
  tablespaceName : ∀ target, (f target).tablespaceName = target.tablespaceName
  file : ∀ target, (f target).file = none ↔ target.file = none

section Retained
variable (retains : Retains f)
include retains

theorem Retains.isTablespace (target : ManifestTarget) :
    isTablespace (f target) ↔ isTablespace target := by
  unfold RestoreMap.isTablespace
  rw [retains.tablespaceId]

theorem Retains.isLink (target : ManifestTarget) : isLink (f target) ↔ isLink target := by
  unfold RestoreMap.isLink
  rw [retains.tablespaceId, retains.type]

theorem Retains.linkName (target : ManifestTarget) : linkName (f target) = linkName target := by
  unfold RestoreMap.linkName
  rw [retains.tablespaceId, retains.name]

theorem Retains.agree (target : ManifestTarget) :
    Agree option (f target) ↔ Agree option target := by
  unfold Agree tablespacePathByName tablespacePathById
  rw [retains.tablespaceId, retains.tablespaceName]

theorem Retains.linkKey (target : ManifestTarget) : linkKey (f target) = linkKey target := by
  unfold RestoreMap.linkKey
  rw [retains.name]

theorem Retains.longEnough (target : ManifestTarget) :
    LongEnough option (f target) ↔ LongEnough option target := by
  unfold LongEnough linkPathGet
  rw [ne_eq, retains.file, retains.linkKey]

theorem Retains.keyed (keyed : Keyed manifest) {links : List ManifestLink}
    (named : links.map (·.name) = manifest.linkList.map (·.name)) :
    Keyed { manifest with targetList := manifest.targetList.map f, linkList := links } := by
  have owners : ((manifest.targetList.map f).filter (·.type = .link)).map RestoreMap.linkName =
      (manifest.targetList.filter (·.type = .link)).map RestoreMap.linkName := by
    rw [List.filter_map, List.map_map]
    have kinds : manifest.targetList.filter ((fun t : ManifestTarget => decide (t.type = .link)) ∘ f) =
        manifest.targetList.filter (·.type = .link) :=
      List.filter_congr fun target _ => by simp [retains.type]
    rw [kinds]
    exact List.map_congr_left fun target _ => retains.linkName target
  constructor
  · rw [List.map_map]
    have names : manifest.targetList.map ((·.name) ∘ f) = manifest.targetList.map (·.name) :=
      List.map_congr_left fun target _ => retains.name target
    rw [names]
    exact keyed.targets
  · exact named ▸ keyed.links
  · exact owners ▸ keyed.owners
  · intro target mem isLink
    obtain ⟨t, ht, rfl⟩ := List.mem_map.mp mem
    obtain ⟨link, hlink, hname⟩ := keyed.linked t ht ((retains.type t).symm.trans isLink)
    have kept : link.name ∈ links.map (·.name) := named ▸ List.mem_map_of_mem hlink
    obtain ⟨other, member, same⟩ := List.mem_map.mp kept
    exact ⟨other, member, same.trans (hname.trans (retains.linkName t).symm)⟩
  · intro target mem tablespace
    obtain ⟨t, ht, rfl⟩ := List.mem_map.mp mem
    obtain ⟨isLink, file, name⟩ := keyed.tablespaces t ht ((retains.isTablespace t).mp tablespace)
    exact ⟨(retains.type t).trans isLink, (retains.file t).mpr file,
      (retains.tablespaceName t).symm ▸ name⟩

theorem Retains.tablespacesFit {targets : List ManifestTarget} :
    TablespacesFit option (targets.map f) ↔ TablespacesFit option targets := by
  simp only [tablespacesFit_iff, List.mem_map, exists_exists_and_eq_and, forall_exists_index,
    and_imp, forall_apply_eq_imp_iff₂, retains.isTablespace, retains.agree, retains.tablespaceId, retains.tablespaceName]

theorem Retains.linksFit {targets : List ManifestTarget} :
    LinksFit option (targets.map f) ↔ LinksFit option targets := by
  simp only [linksFit_iff, List.mem_map, exists_exists_and_eq_and, forall_exists_index, and_imp,
    forall_apply_eq_imp_iff₂, retains.isLink, retains.linkKey, retains.longEnough]

end Retained

theorem retains_baseMove : Retains (baseMove option) := by
  have cases : ∀ target, baseMove option target = { target with path := some option.pgPath } ∨
      baseMove option target = target := by
    intro target
    unfold baseMove
    by_cases named : target.name = manifestTargetPgData
    · exact Or.inl (if_pos named)
    · exact Or.inr (if_neg named)
  constructor <;> intro target <;> rcases cases target with moved | moved <;> rw [moved]

theorem retains_targetMove {destination : Str} : Retains (targetMove destination) := by
  constructor <;> intro target <;> unfold targetMove <;> cases target.file <;> simp [targetUpdate]

/-- What a pass without removals does to a target. -/
def remapTarget (r : ManifestTarget → Remap) (target : ManifestTarget) : ManifestTarget :=
  (targetRemap target (r target)).getD target

theorem targetRemap_some (stays : ∀ target, r target ≠ .remove) (target : ManifestTarget) :
    targetRemap target (r target) = some (remapTarget r target) := by
  unfold remapTarget
  cases h : r target with
  | keep => rfl
  | move destination => rfl
  | remove => exact absurd h (stays target)

theorem targetsRemap_eq_map (stays : ∀ target, r target ≠ .remove) (targets : List ManifestTarget) :
    targetsRemap r targets = targets.map (remapTarget r) := by
  rw [← List.filterMap_eq_map]
  exact List.filterMap_congr fun target _ => targetRemap_some stays target

theorem retains_remapTarget : Retains (remapTarget r) := by
  have cases : ∀ target, remapTarget r target = target ∨
      ∃ destination, remapTarget r target = targetMove destination target := by
    intro target
    unfold remapTarget
    cases r target with
    | keep => exact Or.inl rfl
    | move destination => exact Or.inr ⟨destination, rfl⟩
    | remove => exact Or.inl rfl
  constructor <;> intro target <;> rcases cases target with same | ⟨destination, moved⟩
  · rw [same]
  · exact moved ▸ retains_targetMove.name target
  · rw [same]
  · exact moved ▸ retains_targetMove.type target
  · rw [same]
  · exact moved ▸ retains_targetMove.tablespaceId target
  · rw [same]
  · exact moved ▸ retains_targetMove.tablespaceName target
  · rw [same]
  · exact moved ▸ retains_targetMove.file target

theorem linksRemap_names (stays : ∀ target, r target ≠ .remove) (targets : List ManifestTarget)
    (links : List ManifestLink) : (linksRemap r targets links).map (·.name) = links.map (·.name) := by
  have follows : ∀ link, ∃ mapped, linkFollow r targets link = some mapped := by
    intro link
    unfold linkFollow
    cases targetOf targets link with
    | none => exact ⟨link, rfl⟩
    | some target =>
      dsimp only
      cases h : r target with
      | keep => exact ⟨link, rfl⟩
      | move destination => exact ⟨linkUpdate destination link, rfl⟩
      | remove => exact absurd h (stays target)
  induction links with
  | nil => rfl
  | cons link links ih =>
    obtain ⟨mapped, follow⟩ := follows link
    unfold linksRemap at ih ⊢
    rw [List.filterMap_cons, follow, List.map_cons, List.map_cons, linkFollow_name follow, ih]

end Passes

section Result

variable {option : MapOption} {manifest result : Manifest}

variable {target : ManifestTarget} {link : ManifestLink}

theorem mapping_of_tablespace (tablespace : isTablespace target) :
    mapping option target = tablespaceMapping option target :=
  if_pos tablespace

theorem mapping_of_other (other : ¬ isTablespace target) :
    mapping option target = linkMapping option target :=
  if_neg other

theorem linkMapping_of_tablespace (tablespace : isTablespace target) :
    linkMapping option target = .keep :=
  if_neg fun link => tablespace link.2

theorem targetRemap_twice (target : ManifestTarget) :
    targetRemap (remapTarget (tablespaceMapping option) target)
        (linkMapping option (remapTarget (tablespaceMapping option) target)) =
      targetRemap target (mapping option target) := by
  by_cases tablespace : isTablespace target
  · have moved : isTablespace (remapTarget (tablespaceMapping option) target) :=
      (retains_remapTarget.isTablespace target).mpr tablespace
    rw [linkMapping_of_tablespace moved, mapping_of_tablespace tablespace]
    exact (targetRemap_some tablespaceMapping_stays target).symm
  · have kept : remapTarget (tablespaceMapping option) target = target := by
      rw [remapTarget, tablespaceMapping, if_neg tablespace]
      rfl
    rw [kept, mapping_of_other tablespace]

theorem targetOf_map {f : ManifestTarget → ManifestTarget} (retains : Retains f)
    {targets : List ManifestTarget} {mapped : ManifestLink} (named : mapped.name = link.name) :
    targetOf (targets.map f) mapped = (targetOf targets link).map f := by
  unfold targetOf
  rw [List.find?_map, named]
  congr 2
  funext target
  simp only [Function.comp, retains.type, retains.linkName]

theorem linkFollow_twice (targets : List ManifestTarget) (link : ManifestLink) :
    (linkFollow (tablespaceMapping option) targets link).bind
        (linkFollow (linkMapping option) (targets.map (remapTarget (tablespaceMapping option)))) =
      linkFollow (mapping option) targets link := by
  have second : ∀ mapped, mapped.name = link.name →
      targetOf (targets.map (remapTarget (tablespaceMapping option))) mapped =
        (targetOf targets link).map (remapTarget (tablespaceMapping option)) :=
    fun mapped named => targetOf_map retains_remapTarget named
  cases owner : targetOf targets link with
  | none =>
    have first : linkFollow (tablespaceMapping option) targets link = some link := by
      rw [linkFollow, owner]
    rw [first, Option.bind_some, linkFollow, second link rfl, linkFollow, owner]
    rfl
  | some target =>
    have first : linkFollow (tablespaceMapping option) targets link =
        linkEntryRemap link (tablespaceMapping option target) := by
      rw [linkFollow, owner]
    have whole : linkFollow (mapping option) targets link =
        linkEntryRemap link (mapping option target) := by
      rw [linkFollow, owner]
    have then_link : ∀ mapped, mapped.name = link.name →
        linkFollow (linkMapping option) (targets.map (remapTarget (tablespaceMapping option))) mapped =
          linkEntryRemap mapped
            (linkMapping option (remapTarget (tablespaceMapping option) target)) := by
      intro mapped named
      rw [linkFollow, second mapped named, owner]
      rfl
    rw [first, whole]
    by_cases tablespace : isTablespace target
    · rw [mapping_of_tablespace tablespace]
      cases entry : linkEntryRemap link (tablespaceMapping option target) with
      | none => rfl
      | some mapped =>
        have moved : isTablespace (remapTarget (tablespaceMapping option) target) :=
          (retains_remapTarget.isTablespace target).mpr tablespace
        rw [Option.bind_some, then_link mapped (linkEntryRemap_name entry),
          linkMapping_of_tablespace moved]
        rfl
    · have keep : tablespaceMapping option target = .keep := if_neg tablespace
      have kept : remapTarget (tablespaceMapping option) target = target := by
        rw [remapTarget, keep]
        rfl
      have same : linkEntryRemap link (tablespaceMapping option target) = some link := by
        rw [keep]
        rfl
      rw [same, Option.bind_some, then_link link rfl, kept, mapping_of_other tablespace]

/-- The two passes are one. -/
theorem remapped_remapped :
    remapped (linkMapping option) (remapped (tablespaceMapping option) manifest) =
      remapped (mapping option) manifest := by
  have targets : targetsRemap (linkMapping option)
      (targetsRemap (tablespaceMapping option) manifest.targetList) =
        targetsRemap (mapping option) manifest.targetList := by
    rw [targetsRemap_eq_map tablespaceMapping_stays, targetsRemap, List.filterMap_map]
    exact List.filterMap_congr fun target _ => targetRemap_twice target
  have links : linksRemap (linkMapping option)
      (targetsRemap (tablespaceMapping option) manifest.targetList)
      (linksRemap (tablespaceMapping option) manifest.targetList manifest.linkList) =
        linksRemap (mapping option) manifest.targetList manifest.linkList := by
    rw [targetsRemap_eq_map tablespaceMapping_stays]
    unfold linksRemap
    rw [List.filterMap_filterMap]
    exact List.filterMap_congr fun link _ => linkFollow_twice manifest.targetList link
  unfold remapped
  dsimp only
  rw [targets, links]

/-- What the options have to satisfy. -/
structure Fits (option : MapOption) (manifest : Manifest) : Prop where
  tablespaces : TablespacesFit option manifest.targetList
  links : LinksFit option manifest.targetList

/-- The options decide about success and result. -/
theorem restoreManifestMap_ok_iff (keyed : Keyed manifest) (isBased : Based manifest) :
    restoreManifestMap option manifest = .ok result ↔
      Fits option manifest ∧ result = remapped (mapping option) (based option manifest) := by
  have keyed_base : Keyed (based option manifest) := retains_baseMove.keyed keyed rfl
  have keyed_moved : Keyed (remapped (tablespaceMapping option) (based option manifest)) := by
    unfold remapped
    rw [targetsRemap_eq_map tablespaceMapping_stays]
    exact retains_remapTarget.keyed keyed_base (linksRemap_names tablespaceMapping_stays _ _)
  have tablespaces : TablespacesFit option (based option manifest).targetList ↔
      TablespacesFit option manifest.targetList := retains_baseMove.tablespacesFit
  have links : LinksFit option
      (remapped (tablespaceMapping option) (based option manifest)).targetList ↔
        LinksFit option manifest.targetList := by
    unfold remapped
    rw [targetsRemap_eq_map tablespaceMapping_stays]
    exact retains_remapTarget.linksFit.trans retains_baseMove.linksFit
  suffices decides : Decides (restoreManifestMap option manifest) (Fits option manifest)
      (remapped (mapping option) (based option manifest)) from decides result
  refine Decides.congr (Decides.after (dataDirectoryMap_eq keyed isBased)
    ((tablespacesMap_decides keyed_base).bind (linksMap_decides keyed_moved))) ?_ remapped_remapped
  rw [tablespaces, links]
  exact ⟨fun both => ⟨both.1, both.2⟩, fun fits => ⟨fits.tablespaces, fits.links⟩⟩

def targetPlace (target : ManifestTarget) : Option (Bool × List Str) :=
  target.path.map fun path =>
    match target.file with
    | none => place path
    | some file => place (path ++ '/' :: file)

/-- A target is where its link leads to. -/
def Denotes (target : ManifestTarget) (link : ManifestLink) : Prop :=
  target.path ≠ none ∧ targetPlace target = link.destination.map place

instance (target : ManifestTarget) (link : ManifestLink) : Decidable (Denotes target link) :=
  inferInstanceAs (Decidable (_ ∧ _))

/-- A manifest whose two lists fit together. -/
structure Consistent (manifest : Manifest) : Prop extends Keyed manifest, Based manifest where
  placed : ∀ target ∈ manifest.targetList, target.type = .link →
    ∀ link ∈ manifest.linkList, link.name = linkName target → Denotes target link

/-- What a successful mapping makes of a manifest. -/
structure Mapped (option : MapOption) (manifest result : Manifest) : Prop where
  targets : result.targetList = manifest.targetList.filterMap
    (fun target => targetRemap (baseMove option target) (mapping option target))
  links : result.linkList = manifest.linkList.filterMap
    (linkFollow (mapping option) manifest.targetList)
  places : ∀ target ∈ result.targetList, target.type = .link →
    ∃ link ∈ result.linkList, link.name = linkName target ∧ Denotes target link
  others : result =
    { manifest with targetList := result.targetList, linkList := result.linkList }

theorem Retains.mapping {f : ManifestTarget → ManifestTarget} (retains : Retains f)
    (target : ManifestTarget) : mapping option (f target) = mapping option target := by
  have tablespace := retains.isTablespace target
  have link := retains.isLink target
  have path : tablespacePath option (f target) = tablespacePath option target := by
    unfold tablespacePath tablespacePathByName tablespacePathById
    rw [retains.tablespaceId, retains.tablespaceName]
  have link_path : linkPathGet option (f target) = linkPathGet option target := by
    unfold linkPathGet
    rw [retains.linkKey]
  unfold RestoreMap.mapping tablespaceMapping linkMapping
  simp only [tablespace, link, path, link_path]

theorem targetMove_denotes {destination : Str}
    (long : target.file ≠ none → strPath destination ≠ []) :
    Denotes (targetMove destination target) (linkUpdate destination link) := by
  unfold Denotes targetPlace targetMove
  cases file : target.file with
  | none => exact ⟨nofun, rfl⟩
  | some name =>
    have path : strPath destination ≠ [] := long (by simp [file])
    exact ⟨nofun, congrArg some (place_strPath_strBase path)⟩

theorem Fits.long (fits : Fits option manifest) (keyed : Keyed manifest)
    (member : target ∈ manifest.targetList) {destination : Str}
    (move : mapping option target = .move destination) :
    target.file ≠ none → strPath destination ≠ [] := by
  intro file
  by_cases tablespace : isTablespace target
  · exact absurd (keyed.tablespaces target member tablespace).2.1 file
  · rw [mapping_of_other tablespace, linkMapping] at move
    by_cases link : isLink target
    · rw [if_pos link] at move
      cases path : linkPathGet option target with
      | none =>
        rw [path] at move
        by_cases all : option.linkAll = true
        · simp [all] at move
        · simp [all] at move
      | some linkPath =>
        rw [path] at move
        cases move
        exact fits.links.long target member link file _ path
    · rw [if_neg link] at move
      cases move

theorem Keyed.targetOf_eq (keyed : Keyed manifest) (member : target ∈ manifest.targetList)
    (isLink : target.type = .link) (named : link.name = linkName target) :
    targetOf manifest.targetList link = some target := by
  have found := (@KeyedList.find_iff _ _ _ linkName
    (manifest.targetList.filter (·.type = .link)) link.name keyed.owners target).mpr
    ⟨List.mem_filter.mpr ⟨member, by simp [isLink]⟩, named.symm⟩
  rw [List.find?_filter] at found
  unfold targetOf
  simpa using found

theorem linkFollow_denotes (consistent : Consistent manifest) (fits : Fits option manifest)
    {mapped : ManifestTarget} (member : target ∈ manifest.targetList) (isLink : target.type = .link)
    (remap : targetRemap target (mapping option target) = some mapped) :
    ∃ link ∈ manifest.linkList, ∃ followed,
      linkFollow (mapping option) manifest.targetList link = some followed ∧
        followed.name = linkName mapped ∧ Denotes mapped followed := by
  obtain ⟨link, hlink, named⟩ := consistent.linked target member isLink
  have follow : linkFollow (mapping option) manifest.targetList link =
      linkEntryRemap link (mapping option target) := by
    rw [linkFollow, consistent.targetOf_eq member isLink named]
  refine ⟨link, hlink, ?_⟩
  rw [follow]
  cases move : mapping option target with
  | keep =>
    rw [move] at remap
    cases remap
    exact ⟨link, rfl, named, consistent.placed target member isLink link hlink named⟩
  | move destination =>
    rw [move] at remap
    cases remap
    refine ⟨linkUpdate destination link, rfl, ?_, ?_⟩
    · exact named.trans (retains_targetMove.linkName target).symm
    · exact targetMove_denotes (fits.long consistent.toKeyed member move)
  | remove =>
    rw [move] at remap
    cases remap

theorem mapped_of_fits (consistent : Consistent manifest) (fits : Fits option manifest) :
    Mapped option manifest (remapped (mapping option) (based option manifest)) := by
  have follow : linkFollow (mapping option) (manifest.targetList.map (baseMove option)) =
      linkFollow (mapping option) manifest.targetList := by
    funext link
    unfold linkFollow
    rw [targetOf_map retains_baseMove rfl]
    cases targetOf manifest.targetList link with
    | none => rfl
    | some target => simp only [Option.map_some, retains_baseMove.mapping]
  have targets : targetsRemap (mapping option) (manifest.targetList.map (baseMove option)) =
      manifest.targetList.filterMap
        (fun target => targetRemap (baseMove option target) (mapping option target)) := by
    unfold targetsRemap
    rw [List.filterMap_map]
    refine List.filterMap_congr fun target _ => ?_
    rw [Function.comp, retains_baseMove.mapping]
  have links : linksRemap (mapping option) (manifest.targetList.map (baseMove option))
      manifest.linkList =
        manifest.linkList.filterMap (linkFollow (mapping option) manifest.targetList) := by
    unfold linksRemap
    rw [follow]
  constructor
  · exact targets
  · exact links
  · intro mapped mem isLink
    have mem' := mem
    rw [remapped, based] at mem'
    dsimp only at mem'
    rw [targets] at mem'
    obtain ⟨target, member, remap⟩ := List.mem_filterMap.mp mem'
    have plain : baseMove option target = target := by
      by_cases named : target.name = manifestTargetPgData
      · obtain ⟨path, tablespaceId, -⟩ := consistent.plain target member named
        have keep : mapping option target = .keep := by
          have other : ¬ isTablespace target := fun h => h tablespaceId
          rw [mapping_of_other other]
          exact if_neg fun link => by cases path.symm.trans link.1
        rw [keep] at remap
        cases remap
        rw [retains_baseMove.type, path] at isLink
        cases isLink
      · exact if_neg named
    rw [plain] at remap
    have isLink' : target.type = .link := by
      have type : mapped.type = target.type := by
        cases move : mapping option target with
        | keep =>
          rw [move] at remap
          cases remap
          rfl
        | move destination =>
          rw [move] at remap
          cases remap
          exact retains_targetMove.type target
        | remove =>
          rw [move] at remap
          cases remap
      exact type.symm.trans isLink
    obtain ⟨link, hlink, followed, hfollow, name, denotes⟩ :=
      linkFollow_denotes consistent fits member isLink' remap
    refine ⟨followed, ?_, name, denotes⟩
    rw [remapped, based]
    dsimp only
    rw [links]
    exact List.mem_filterMap.mpr ⟨link, hlink, hfollow⟩
  · rfl

/-- The mapping succeeds exactly when the options fit the manifest. Then every target is
where the options put it, and every link leads to its target. -/
theorem restoreManifestMap_correct (consistent : Consistent manifest) :
    ((∃ result, restoreManifestMap option manifest = .ok result) ↔ Fits option manifest) ∧
      ∀ result, restoreManifestMap option manifest = .ok result → Mapped option manifest result := by
  have spec := fun result => @restoreManifestMap_ok_iff option manifest result
    consistent.toKeyed consistent.toBased
  constructor
  · constructor
    · rintro ⟨result, run⟩
      exact ((spec result).mp run).1
    · exact fun fits => ⟨_, (spec _).mpr ⟨fits, rfl⟩⟩
  · intro result run
    obtain ⟨fits, rfl⟩ := (spec result).mp run
    exact mapped_of_fits consistent fits

section Example

/-- A data directory with a tablespace, a linked directory and a linked file. -/
def linkedManifest : Manifest where
  targetList := [
    ⟨"pg_data".toList, .path, some "/old/pg".toList, none, 0, none⟩,
    ⟨"pg_data/pg_hba.conf".toList, .link, some "../conf".toList, some "pg_hba.conf".toList, 0, none⟩,
    ⟨"pg_data/pg_wal".toList, .link, some "/wal".toList, none, 0, none⟩,
    ⟨"pg_tblspc/1".toList, .link, some "/ts1".toList, none, 1, some "ts1".toList⟩]
  linkList := [
    ⟨"pg_data/pg_hba.conf".toList, some "../conf/pg_hba.conf".toList, none, none⟩,
    ⟨"pg_data/pg_tblspc/1".toList, some "/ts1".toList, none, none⟩,
    ⟨"pg_data/pg_wal".toList, some "/wal".toList, none, none⟩]

def mapOption : MapOption where
  pgPath := "/pg".toList
  tablespaceMap := some [("1".toList, "/fast/ts1".toList)]
  linkMap := some [("pg_hba.conf".toList, "/hba".toList)]

theorem linkedManifest_consistent : Consistent linkedManifest where
  targets := by decide +kernel
  links := by decide +kernel
  owners := by decide +kernel
  linked := by decide +kernel
  tablespaces := by decide +kernel
  base := by decide +kernel
  plain := by decide +kernel
  placed := by decide +kernel

/-- The file of the link is found at the root, and the link that is not mapped is gone. -/
theorem restoreManifestMap_correct_linkedManifest :
    ∃ result, restoreManifestMap mapOption linkedManifest = .ok result ∧
      Mapped mapOption linkedManifest result ∧
      result.targetList.map (·.path) =
        [some "/pg".toList, some "/".toList, some "/fast/ts1".toList] := by
  refine ⟨_, rfl, ?_, ?_⟩
  · exact (restoreManifestMap_correct linkedManifest_consistent).2 _ rfl
  · decide +kernel

/-- A target that is no tablespace and no link moves: the data directory. -/
theorem restoreManifestMap_moves_base :
    ∃ option manifest result, Consistent manifest ∧ restoreManifestMap option manifest = .ok result ∧
      ∃ target ∈ manifest.targetList, ¬ isTablespace target ∧ ¬ isLink target ∧
        ∀ other ∈ result.targetList, other.name = target.name → other.path ≠ target.path := by
  refine ⟨mapOption, linkedManifest, _, linkedManifest_consistent, rfl, ?_⟩
  exact ⟨_, List.mem_cons_self, by decide +kernel, by decide +kernel, by decide +kernel⟩

end Example

end Result

end RestoreMap
