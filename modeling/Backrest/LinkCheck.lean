import Backrest.ManifestTarget
import Backrest.PrefixNeighbours
import Mathlib.Data.List.Induction
import Mathlib.Data.List.Pairwise

/-!
# The check of link destinations

`manifestLinkCheck` looks at the link targets one after the other. It keeps a
sorted list with the first link of every destination path, compares a link with
the entry of its own path, and a path link with its nearest neighbours.
-/

namespace LinkCheck

open Text BackupManifest PathName ManifestTarget LexOrder PrefixNeighbours Effects

section Code

structure ManifestLinkCheckItem where
  /-- The destination path with a slash at its end. -/
  path : Str
  file : Option Str
  targetIdx : Nat

structure ManifestLinkCheck where
  basePath : Option Str := none
  linkList : List ManifestLinkCheckItem := []

/-- A link and its destination as the messages show them. -/
def linkText (this : Manifest) (target : ManifestTarget) (fileText : Str) : Except Error Str := do
  let name ← notNull (manifestPathPg target.name)
  let path ← manifestTargetPath this target
  return "link '".toList ++ name ++ "' (".toList ++ path ++ fileText ++ [')']

def inPgDataError (this : Manifest) (target1 : ManifestTarget) : Except Error ManifestLinkCheck := do
  let name ← notNull (manifestPathPg target1.name)
  let path ← manifestTargetPath this target1
  throw ⟨.linkDestinationError,
    "link '".toList ++ name ++ "' destination '".toList ++ path ++ "' is in PGDATA".toList⟩

/-- Two links with one destination, or one below the other. -/
def linkError {α : Type} (this : Manifest) (target1 : ManifestTarget) (fileText1 relation : Str)
    (target2 : ManifestTarget) (fileText2 : Str) : Except Error α := do
  let text1 ← linkText this target1 fileText1
  let text2 ← linkText this target2 fileText2
  throw ⟨.linkDestinationError, text1 ++ " destination is ".toList ++ relation ++ ' ' :: text2⟩

def fileText (target : ManifestTarget) : Str := '/' :: target.file.getD []

/-- The destination path already exists in the list. -/
def linkExists (this : Manifest) (target1 : ManifestTarget) (link : ManifestLinkCheckItem) :
    Except Error Unit :=
  match target1.file, link.file with
  | some file1, some file2 =>
    if file1 = file2 then do
      let target2 ← lstGet this.targetList link.targetIdx
      linkError this target1 (fileText target1) "the same file as".toList target2 (fileText target2)
    else return ()
  | _, _ => do
    let target2 ← lstGet this.targetList link.targetIdx
    linkError this target1 [] "the same directory as".toList target2 []

/-- The nearest path link before the index. -/
def priorPathLink (linkList : List ManifestLinkCheckItem) (linkIdx : Nat) :
    Option ManifestLinkCheckItem :=
  (linkList.take linkIdx).reverse.find? (·.file.isNone)

/-- The nearest path link after the index. -/
def nextPathLink (linkList : List ManifestLinkCheckItem) (linkIdx : Nat) :
    Option ManifestLinkCheckItem :=
  (linkList.drop (linkIdx + 1)).find? (·.file.isNone)

def subdirectory : Str := "a subdirectory of".toList

def priorCheck (this : Manifest) (target1 : ManifestTarget) (path : Str) :
    Option ManifestLinkCheckItem → Except Error Unit
  | none => return ()
  | some priorLink =>
    if strBeginsWith path priorLink.path = true then do
      let target2 ← lstGet this.targetList priorLink.targetIdx
      linkError this target1 [] subdirectory target2 []
    else return ()

def nextCheck (this : Manifest) (target1 : ManifestTarget) (path : Str) :
    Option ManifestLinkCheckItem → Except Error Unit
  | none => return ()
  | some nextLink =>
    if strBeginsWith nextLink.path path = true then do
      let target2 ← lstGet this.targetList nextLink.targetIdx
      linkError this target2 [] subdirectory target1 []
    else return ()

def linkAdd (this : Manifest) (linkList : List ManifestLinkCheckItem) (target1 : ManifestTarget)
    (targetIdx : Nat) (path : Str) : Except Error (List ManifestLinkCheckItem) := do
  let linkList := sortBy (·.path) (linkList ++ [⟨path, target1.file, targetIdx⟩])
  let linkIdx := linkList.findIdx (fun item => item.path = path)
  if target1.file.isNone = true then
    priorCheck this target1 path (priorPathLink linkList linkIdx)
    nextCheck this target1 path (nextPathLink linkList linkIdx)
  return linkList

def basePathGet (this : Manifest) : Except Error Str := do
  let base ← manifestTargetBase this
  let path ← manifestTargetPath this base
  return path ++ ['/']

/-- The base path is found with the first link and kept. -/
def basePathOnce (this : Manifest) (linkCheck : ManifestLinkCheck) : Except Error Str :=
  match linkCheck.basePath with
  | some basePath => return basePath
  | none => basePathGet this

def linkPathCheck (this : Manifest) (linkCheck : ManifestLinkCheck) (target1 : ManifestTarget)
    (targetIdx : Nat) (path basePath : Str) : Except Error ManifestLinkCheck :=
  if strBeginsWith path basePath = true then inPgDataError this target1
  else
    match linkCheck.linkList.find? (fun item => item.path = path) with
    | some link => do
      linkExists this target1 link
      return { linkCheck with basePath := some basePath }
    | none => do
      let linkList ← linkAdd this linkCheck.linkList target1 targetIdx path
      return ⟨some basePath, linkList⟩

def manifestLinkCheckOne (this : Manifest) (linkCheck : ManifestLinkCheck) (targetIdx : Nat) :
    Except Error ManifestLinkCheck := do
  let target1 ← lstGet this.targetList targetIdx
  if target1.type = .link then
    let path ← manifestTargetPath this target1
    let basePath ← basePathOnce this linkCheck
    linkPathCheck this linkCheck target1 targetIdx (path ++ ['/']) basePath
  else return linkCheck

def manifestLinkCheck (this : Manifest) : Except Error Unit := do
  let _ ← (List.range this.targetList.length).foldlM (manifestLinkCheckOne this) {}
  return ()

end Code

section Steps

theorem linkError_ne_ok {α : Type} {this : Manifest} {target1 target2 : ManifestTarget}
    {fileText1 relation fileText2 : Str} {a : α} :
    linkError this target1 fileText1 relation target2 fileText2 ≠ .ok a := by
  unfold linkError
  cases linkText this target1 fileText1 with
  | error e => exact nofun
  | ok text1 =>
    cases linkText this target2 fileText2 with
    | error e => exact nofun
    | ok text2 => exact nofun

theorem bind_ne_ok {α β : Type} {x : Except Error β} {f : β → Except Error α} {a : α}
    (h : ∀ b, f b ≠ .ok a) : (x >>= f) ≠ .ok a := by
  cases x with
  | error e => exact nofun
  | ok b => exact h b

theorem inPgDataError_ne_ok {this : Manifest} {target1 : ManifestTarget} {a : ManifestLinkCheck} :
    inPgDataError this target1 ≠ .ok a :=
  bind_ne_ok fun _ => bind_ne_ok fun _ => nofun

variable {this : Manifest} {target1 : ManifestTarget} {path : Str}

theorem linkExists_ok_iff {link : ManifestLinkCheckItem} :
    linkExists this target1 link = .ok () ↔
      target1.file ≠ none ∧ link.file ≠ none ∧ target1.file ≠ link.file := by
  unfold linkExists
  cases h1 : target1.file with
  | none =>
    constructor
    · intro ok
      exact absurd ok (bind_ne_ok fun _ => linkError_ne_ok)
    · exact fun h => absurd rfl h.1
  | some file1 =>
    cases h2 : link.file with
    | none =>
      constructor
      · intro ok
        exact absurd ok (bind_ne_ok fun _ => linkError_ne_ok)
      · exact fun h => absurd rfl h.2.1
    | some file2 =>
      dsimp only
      by_cases same : file1 = file2
      · rw [if_pos same]
        constructor
        · intro ok
          exact absurd ok (bind_ne_ok fun _ => linkError_ne_ok)
        · exact fun h => absurd (congrArg some same) h.2.2
      · rw [if_neg same]
        exact ⟨fun _ => ⟨nofun, nofun, fun h => same (Option.some.inj h)⟩, fun _ => rfl⟩

theorem refuse_ok_iff {p : Prop} [Decidable p] {x : Except Error Unit} (fails : x ≠ .ok ()) :
    (if p then x else return ()) = .ok () ↔ ¬ p := by
  by_cases h : p
  · rw [if_pos h]
    exact ⟨fun ok => absurd ok fails, fun other => absurd h other⟩
  · rw [if_neg h]
    exact ⟨fun _ => h, fun _ => rfl⟩

theorem begins_iff {s t : Str} : strBeginsWith s t = true ↔ t <+: s := List.isPrefixOf_iff_prefix

theorem priorCheck_ok_iff {prior : Option ManifestLinkCheckItem} :
    priorCheck this target1 path prior = .ok () ↔
      ¬ ∃ item, prior = some item ∧ item.path <+: path := by
  cases prior with
  | none => exact ⟨fun _ => nofun, fun _ => rfl⟩
  | some item =>
    refine (refuse_ok_iff (bind_ne_ok fun _ => linkError_ne_ok)).trans (not_congr ?_)
    rw [begins_iff]
    constructor
    · exact fun front => ⟨item, rfl, front⟩
    · rintro ⟨_, same, front⟩
      cases same
      exact front

theorem nextCheck_ok_iff {next : Option ManifestLinkCheckItem} :
    nextCheck this target1 path next = .ok () ↔
      ¬ ∃ item, next = some item ∧ path <+: item.path := by
  cases next with
  | none => exact ⟨fun _ => nofun, fun _ => rfl⟩
  | some item =>
    refine (refuse_ok_iff (bind_ne_ok fun _ => linkError_ne_ok)).trans (not_congr ?_)
    rw [begins_iff]
    constructor
    · exact fun front => ⟨item, rfl, front⟩
    · rintro ⟨_, same, front⟩
      cases same
      exact front

end Steps

section Records

structure Link where
  path : Str
  file : Option Str
  deriving DecidableEq

def ManifestLinkCheckItem.link (item : ManifestLinkCheckItem) : Link := ⟨item.path, item.file⟩

def Clash (a b : Link) : Prop :=
  (a.path = b.path ∧ (a.file = none ∨ b.file = none)) ∨
    (a.file = none ∧ b.file = none ∧ (a.path <+: b.path ∨ b.path <+: a.path))

variable {l a : Link} {item : ManifestLinkCheckItem} {before after : List ManifestLinkCheckItem}

theorem Clash.symm {b : Link} (h : Clash a b) : Clash b a := by
  rcases h with ⟨same, file⟩ | ⟨ha, hb, nested⟩
  · exact Or.inl ⟨same.symm, file.symm⟩
  · exact Or.inr ⟨hb, ha, nested.symm⟩

def firstAt (links : List Link) (path : Str) : Option Link := links.find? (fun l => l.path = path)

theorem firstAt_some {links : List Link} {path : Str} (h : firstAt links path = some l) :
    l ∈ links ∧ l.path = path :=
  ⟨List.mem_of_find?_eq_some h, by simpa using List.find?_some h⟩

theorem firstAt_isSome {links : List Link} (h : l ∈ links) :
    ∃ first, firstAt links l.path = some first :=
  Option.isSome_iff_exists.mp (List.find?_isSome.mpr ⟨l, h, by simp⟩)

theorem firstAt_concat (links : List Link) (l : Link) (path : Str) :
    firstAt (links ++ [l]) path = (firstAt links path).or (if l.path = path then some l else none) := by
  unfold firstAt
  rw [List.find?_append, List.find?_singleton]
  simp

structure Accepted (base : Str) (links : List Link) : Prop where
  outside : ∀ l ∈ links, ¬ base <+: l.path
  apart : links.Pairwise (fun a b => ¬ Clash a b)
  fresh : ∀ seen l later, links = seen ++ l :: later → ∀ first, firstAt seen l.path = some first →
    first.file ≠ l.file

theorem Accepted.same {base : Str} {links : List Link} (h : Accepted base links) {b : Link}
    (ha : a ∈ links) (hb : b ∈ links) (clash : Clash a b) : a = b := by
  have symm : Std.Symm (fun a b => ¬ Clash a b) := ⟨fun _ _ none clash => none clash.symm⟩
  by_contra differ
  exact h.apart.forall ha hb differ clash

/-- The list holds the first link of every destination path. -/
structure Recorded (links : List Link) (linkList : List ManifestLinkCheckItem) : Prop where
  sorted : linkList.Pairwise (fun a b => a.path < b.path)
  mem : ∀ l, (∃ item ∈ linkList, item.link = l) ↔ firstAt links l.path = some l

theorem recorded_find {links : List Link} {linkList : List ManifestLinkCheckItem}
    (recorded : Recorded links linkList) (path : Str) :
    (linkList.find? (fun item => item.path = path)).map (·.link) = firstAt links path := by
  cases found : linkList.find? (fun item => item.path = path) with
  | none =>
    cases first : firstAt links path with
    | none => rfl
    | some l =>
      obtain ⟨-, rfl⟩ := firstAt_some first
      obtain ⟨item, hitem, rfl⟩ := (recorded.mem l).mpr first
      exact absurd (decide_eq_true rfl) (List.find?_eq_none.mp found item hitem)
  | some item =>
    have named : item.path = path := by simpa using List.find?_some found
    have first := (recorded.mem item.link).mp ⟨item, List.mem_of_find?_eq_some found, rfl⟩
    rw [← named]
    exact first.symm

theorem Accepted.concat_iff {base : Str} {links : List Link} :
    Accepted base (links ++ [l]) ↔ Accepted base links ∧ ¬ base <+: l.path ∧
      (∀ a ∈ links, ¬ Clash a l) ∧
      ∀ first, firstAt links l.path = some first → first.file ≠ l.file := by
  constructor
  · rintro ⟨outside, apart, fresh⟩
    obtain ⟨apart_links, -, apart_l⟩ := List.pairwise_append.mp apart
    refine ⟨⟨fun a ha => outside a (List.mem_append_left _ ha), apart_links, ?_⟩, ?_, ?_, ?_⟩
    · intro seen a later split
      exact fresh seen a (later ++ [l]) (by simp [split])
    · exact outside l (by simp)
    · exact fun a ha => apart_l a ha l (by simp)
    · exact fresh links l [] rfl
  · rintro ⟨⟨outside, apart, fresh⟩, outside_l, apart_l, fresh_l⟩
    refine ⟨?_, ?_, ?_⟩
    · intro a ha
      rcases List.mem_append.mp ha with ha | ha
      · exact outside a ha
      · cases List.mem_singleton.mp ha
        exact outside_l
    · refine List.pairwise_append.mpr ⟨apart, List.pairwise_singleton _ _, ?_⟩
      intro a ha b hb
      cases List.mem_singleton.mp hb
      exact apart_l a ha
    · intro seen a later split
      cases later using List.reverseRecOn with
      | nil =>
        obtain ⟨rfl, same⟩ := List.append_inj' split rfl
        cases same
        exact fresh_l
      | append_singleton later last =>
        have split' : links ++ [l] = (seen ++ a :: later) ++ [last] := by simp [split]
        exact fresh seen a later (List.append_inj' split' rfl).1

theorem Recorded.known {links : List Link} {linkList : List ManifestLinkCheckItem}
    (recorded : Recorded links linkList) {first : Link} (known : firstAt links l.path = some first) :
    Recorded (links ++ [l]) linkList := by
  refine ⟨recorded.sorted, fun a => ?_⟩
  rw [recorded.mem, firstAt_concat]
  by_cases same : l.path = a.path
  · rw [if_pos same, ← same, known]
    rfl
  · rw [if_neg same, Option.or_none]

theorem Recorded.add {links : List Link} {linkList : List ManifestLinkCheckItem}
    (recorded : Recorded links linkList) (new : firstAt links item.path = none) :
    Recorded (links ++ [item.link]) (sortBy (·.path) (linkList ++ [item])) := by
  have other : ∀ a ∈ linkList, a.path ≠ item.path := by
    intro a ha same
    have first := (recorded.mem a.link).mp ⟨a, ha, rfl⟩
    have none : firstAt links a.link.path = none := by
      rw [show a.link.path = item.path from same]
      exact new
    rw [none] at first
    cases first
  constructor
  · have distinct : (linkList ++ [item]).Pairwise (fun a b => a.path ≠ b.path) := by
      refine List.pairwise_append.mpr ⟨recorded.sorted.imp fun less => ne_of_lt less,
        List.pairwise_singleton _ _, ?_⟩
      intro a ha b hb
      cases List.mem_singleton.mp hb
      exact other a ha
    have distinct' := (sortBy_perm (·.path) (linkList ++ [item])).symm.pairwise distinct
      (fun differ => Ne.symm differ)
    exact (sortBy_pairwise _ _).imp₂ (fun _ _ le differ => lt_of_le_of_ne le differ) distinct'
  · intro l
    rw [firstAt_concat]
    constructor
    · rintro ⟨a, ha, rfl⟩
      rcases List.mem_append.mp (mem_sortBy.mp ha) with ha | ha
      · rw [(recorded.mem a.link).mp ⟨a, ha, rfl⟩]
        rfl
      · cases List.mem_singleton.mp ha
        rw [show firstAt links item.link.path = none from new, if_pos rfl]
        rfl
    · intro first
      cases known : firstAt links l.path with
      | some f =>
        rw [known] at first
        cases first
        obtain ⟨a, ha, same⟩ := (recorded.mem l).mpr known
        exact ⟨a, mem_sortBy.mpr (List.mem_append_left _ ha), same⟩
      | none =>
        rw [known, Option.none_or] at first
        by_cases same : item.link.path = l.path
        · rw [if_pos same] at first
          exact ⟨item, mem_sortBy.mpr (by simp), Option.some.inj first⟩
        · rw [if_neg same] at first
          cases first

variable {this : Manifest} {target1 : ManifestTarget} {base path : Str} {links : List Link}
  {linkList : List ManifestLinkCheckItem}

theorem Accepted.first_path (accepted : Accepted base links) (ha : a ∈ links)
    (hpath : a.file = none) : firstAt links a.path = some a := by
  obtain ⟨first, found⟩ := firstAt_isSome ha
  obtain ⟨hf, same⟩ := firstAt_some found
  rw [found, accepted.same hf ha (Or.inl ⟨same, Or.inr hpath⟩)]

theorem findIdx_split (below : ∀ a ∈ before, a.path < item.path) :
    (before ++ item :: after).findIdx (fun a => a.path = item.path) = before.length := by
  have skipped : before.findIdx (fun a => a.path = item.path) = before.length := by
    apply List.findIdx_eq_length_of_false
    exact fun a ha => decide_eq_false (ne_of_lt (below a ha))
  rw [List.findIdx_append, skipped, if_neg (lt_irrefl _), List.findIdx_cons]
  simp

theorem priorPathLink_split :
    priorPathLink (before ++ after) before.length = before.reverse.find? (·.file.isNone) := by
  unfold priorPathLink
  rw [List.take_left' rfl]

theorem nextPathLink_split :
    nextPathLink (before ++ item :: after) before.length = after.find? (·.file.isNone) := by
  unfold nextPathLink
  simp

theorem neighbours_iff (accepted : Accepted base links) (new : firstAt links item.path = none)
    (recorded : Recorded (links ++ [item.link]) (before ++ item :: after)) :
    ((¬ ∃ a, before.reverse.find? (·.file.isNone) = some a ∧ a.path <+: item.path) ∧
        ¬ ∃ a, after.find? (·.file.isNone) = some a ∧ item.path <+: a.path) ↔
      ∀ a ∈ links, a.file = none → ¬ a.path <+: item.path ∧ ¬ item.path <+: a.path := by
  obtain ⟨strict_before, strict_after, apart⟩ := List.pairwise_append.mp recorded.sorted
  obtain ⟨above, strict_after⟩ := List.pairwise_cons.mp strict_after
  have below : ∀ a ∈ before, a.path < item.path := fun a ha => apart a ha item List.mem_cons_self
  have known : ∀ a ∈ before ++ item :: after, a.path ≠ item.path → a.link ∈ links := by
    intro a ha differ
    have first := (firstAt_some ((recorded.mem a.link).mp ⟨a, ha, rfl⟩)).1
    rcases List.mem_append.mp first with member | same
    · exact member
    · exact absurd (congrArg Link.path (List.mem_singleton.mp same)) differ
  have known_before : ∀ a ∈ before, a.link ∈ links := fun a ha =>
    known a (List.mem_append_left _ ha) (ne_of_lt (below a ha))
  have known_after : ∀ a ∈ after, a.link ∈ links := fun a ha =>
    known a (List.mem_append_right _ (List.mem_cons_of_mem _ ha)) (ne_of_gt (above a ha))
  have apart_before : ∀ a ∈ before, ∀ b ∈ before, a.file.isNone = true → b.file.isNone = true →
      a.path <+: b.path → a.path = b.path := by
    intro a ha b hb hpa hpb nested
    have clash : Clash a.link b.link :=
      Or.inr ⟨Option.isNone_iff_eq_none.mp hpa, Option.isNone_iff_eq_none.mp hpb, Or.inl nested⟩
    exact congrArg Link.path (accepted.same (known_before a ha) (known_before b hb) clash)
  rw [← prior_iff strict_before below apart_before, ← next_iff strict_after above]
  constructor
  · rintro ⟨no_prior, no_next⟩ a ha hpath
    obtain ⟨entry, hentry, rfl⟩ := (recorded.mem a).mpr (by
      rw [firstAt_concat, accepted.first_path ha hpath]
      rfl)
    have entry_path : entry.file.isNone = true := Option.isNone_iff_eq_none.mpr hpath
    rcases List.mem_append.mp hentry with hb | hb
    · exact ⟨fun front => no_prior ⟨entry, hb, entry_path, front⟩,
        not_prefix_of_lt (below entry hb)⟩
    · rcases List.mem_cons.mp hb with rfl | hb
      · have first := accepted.first_path ha hpath
        rw [show firstAt links entry.link.path = none from new] at first
        cases first
      · exact ⟨not_prefix_of_lt (above entry hb),
          fun front => no_next ⟨entry, hb, entry_path, front⟩⟩
  · intro apart_links
    constructor
    · rintro ⟨a, ha, hpath, front⟩
      exact (apart_links a.link (known_before a ha) (Option.isNone_iff_eq_none.mp hpath)).1 front
    · rintro ⟨a, ha, hpath, front⟩
      exact (apart_links a.link (known_after a ha) (Option.isNone_iff_eq_none.mp hpath)).2 front

theorem linkAdd_ok_iff {targetIdx : Nat} (recorded : Recorded links linkList)
    (accepted : Accepted base links) (new : firstAt links path = none)
    {linkList' : List ManifestLinkCheckItem} :
    linkAdd this linkList target1 targetIdx path = .ok linkList' ↔
      (target1.file = none → ∀ a ∈ links, a.file = none → ¬ a.path <+: path ∧ ¬ path <+: a.path) ∧
        linkList' = sortBy (·.path) (linkList ++ [⟨path, target1.file, targetIdx⟩]) := by
  generalize hitem : (⟨path, target1.file, targetIdx⟩ : ManifestLinkCheckItem) = item
  obtain rfl : item.path = path := hitem ▸ rfl
  have recorded' := recorded.add new
  unfold linkAdd
  rw [hitem]
  dsimp only
  generalize hsorted : sortBy (fun item => item.path) (linkList ++ [item]) = sorted at recorded' ⊢
  by_cases isPath : target1.file = none
  · have member : item ∈ sorted := by
      rw [← hsorted]
      exact mem_sortBy.mpr (by simp)
    obtain ⟨before, after, rfl⟩ := List.append_of_mem member
    have below : ∀ a ∈ before, a.path < item.path := fun a ha =>
      (List.pairwise_append.mp recorded'.sorted).2.2 a ha item List.mem_cons_self
    have nested := neighbours_iff accepted new recorded'
    rw [if_pos (by rw [isPath]; rfl), findIdx_split below, priorPathLink_split, nextPathLink_split,
      ← nested, ← priorCheck_ok_iff, ← nextCheck_ok_iff]
    constructor
    · intro run
      obtain ⟨⟨⟩, first, run⟩ := except_bind_ok_iff.mp run
      obtain ⟨⟨⟩, second, run⟩ := except_bind_ok_iff.mp run
      exact ⟨fun _ => ⟨first, second⟩, (Except.ok.inj run).symm⟩
    · rintro ⟨checks, rfl⟩
      obtain ⟨first, second⟩ := checks isPath
      exact except_bind_ok_iff.mpr ⟨(), first, except_bind_ok_iff.mpr ⟨(), second, rfl⟩⟩
  · rw [if_neg (by simpa using isPath)]
    constructor
    · intro ok
      exact ⟨fun none => absurd none isPath, (Except.ok.inj ok).symm⟩
    · rintro ⟨-, rfl⟩
      rfl

end Records

section Run
variable {this : Manifest}

def linkOf (this : Manifest) (target : ManifestTarget) : Link :=
  ⟨(manifestTargetPath this target).toOption.getD [] ++ ['/'], target.file⟩

def linksOf (this : Manifest) (targets : List ManifestTarget) : List Link :=
  (targets.filter (·.type = .link)).map (linkOf this)

/-- The links have destinations that the check accepts. -/
structure Good (this : Manifest) (targets : List ManifestTarget) : Prop where
  resolved : ∀ target ∈ targets, target.type = .link →
    (∃ path, manifestTargetPath this target = .ok path) ∧ ∃ base, basePathGet this = .ok base
  accepted : Accepted ((basePathGet this).toOption.getD []) (linksOf this targets)

structure Checked (this : Manifest) (targets : List ManifestTarget) (linkCheck : ManifestLinkCheck) :
    Prop where
  base : linkCheck.basePath = none ∨
    ∃ base, basePathGet this = .ok base ∧ linkCheck.basePath = some base
  recorded : Recorded (linksOf this targets) linkCheck.linkList

theorem linksOf_concat {targets : List ManifestTarget} {target : ManifestTarget}
    (isLink : target.type = .link) :
    linksOf this (targets ++ [target]) = linksOf this targets ++ [linkOf this target] := by
  simp [linksOf, isLink]

theorem linksOf_other {targets : List ManifestTarget} {target : ManifestTarget}
    (other : target.type ≠ .link) : linksOf this (targets ++ [target]) = linksOf this targets := by
  simp [linksOf, other]

theorem basePathOnce_eq {targets : List ManifestTarget} {linkCheck : ManifestLinkCheck}
    (checked : Checked this targets linkCheck) : basePathOnce this linkCheck = basePathGet this := by
  unfold basePathOnce
  rcases checked.base with unset | ⟨base, known, set⟩
  · rw [unset]
  · rw [set, known]
    rfl

variable {targets : List ManifestTarget} {linkCheck linkCheck' : ManifestLinkCheck}
  {target : ManifestTarget} {targetIdx : Nat}

theorem manifestLinkCheckOne_link (checked : Checked this targets linkCheck)
    (listed : lstGet this.targetList targetIdx = .ok target) (isLink : target.type = .link) :
    manifestLinkCheckOne this linkCheck targetIdx = .ok linkCheck' ↔
      ∃ path base, manifestTargetPath this target = .ok path ∧ basePathGet this = .ok base ∧
        linkPathCheck this linkCheck target targetIdx (path ++ ['/']) base = .ok linkCheck' := by
  unfold manifestLinkCheckOne
  rw [listed, basePathOnce_eq checked]
  constructor
  · intro run
    obtain ⟨_, same, run⟩ := except_bind_ok_iff.mp run
    cases same
    rw [if_pos isLink] at run
    obtain ⟨path, hpath, run⟩ := except_bind_ok_iff.mp run
    obtain ⟨base, hbase, run⟩ := except_bind_ok_iff.mp run
    exact ⟨path, base, hpath, hbase, run⟩
  · rintro ⟨path, base, hpath, hbase, run⟩
    refine except_bind_ok_iff.mpr ⟨target, rfl, ?_⟩
    rw [if_pos isLink]
    exact except_bind_ok_iff.mpr ⟨path, hpath, except_bind_ok_iff.mpr ⟨base, hbase, run⟩⟩

theorem manifestLinkCheckOne_other (listed : lstGet this.targetList targetIdx = .ok target)
    (other : target.type ≠ .link) :
    manifestLinkCheckOne this linkCheck targetIdx = .ok linkCheck := by
  unfold manifestLinkCheckOne
  rw [listed]
  exact if_neg other

theorem linkPathCheck_spec {links : List Link} {path base : Str}
    (recorded : Recorded links linkCheck.linkList) (accepted : Accepted base links) :
    ((∃ linkCheck', linkPathCheck this linkCheck target targetIdx path base = .ok linkCheck') ↔
        Accepted base (links ++ [⟨path, target.file⟩])) ∧
      ∀ linkCheck', linkPathCheck this linkCheck target targetIdx path base = .ok linkCheck' →
        linkCheck'.basePath = some base ∧
          Recorded (links ++ [⟨path, target.file⟩]) linkCheck'.linkList := by
  have found := recorded_find recorded path
  rw [Accepted.concat_iff, and_iff_right accepted]
  unfold linkPathCheck
  by_cases inside : strBeginsWith path base = true
  · rw [if_pos inside]
    refine ⟨⟨?_, ?_⟩, ?_⟩
    · rintro ⟨linkCheck', run⟩
      exact absurd run inPgDataError_ne_ok
    · rintro ⟨outside, -⟩
      exact absurd (begins_iff.mp inside) outside
    · intro linkCheck' run
      exact absurd run inPgDataError_ne_ok
  rw [if_neg inside, and_iff_right (fun front => inside (begins_iff.mpr front))]
  cases known : linkCheck.linkList.find? (fun item => item.path = path) with
  | some link =>
    rw [known] at found
    have first : firstAt links path = some link.link := found.symm
    obtain ⟨member, same⟩ := firstAt_some first
    dsimp only
    refine ⟨⟨?_, ?_⟩, ?_⟩
    · rintro ⟨linkCheck', run⟩
      obtain ⟨⟨⟩, exists_ok, -⟩ := except_bind_ok_iff.mp run
      obtain ⟨file1, file2, differ⟩ := linkExists_ok_iff.mp exists_ok
      constructor
      · intro a ha clash
        rcases clash with ⟨same_path, hpath | none⟩ | ⟨-, none, -⟩
        · have only := accepted.first_path ha hpath
          rw [same_path, first] at only
          cases only
          exact file2 hpath
        · exact file1 none
        · exact file1 none
      · intro f hf
        rw [first] at hf
        cases hf
        exact Ne.symm differ
    · rintro ⟨apart, fresh⟩
      have free : ¬ Clash link.link ⟨path, target.file⟩ := apart link.link member
      have exists_ok : linkExists this target link = .ok () := by
        refine linkExists_ok_iff.mpr ⟨?_, ?_, Ne.symm (fresh link.link first)⟩
        · exact fun none => free (Or.inl ⟨same, Or.inr none⟩)
        · exact fun none => free (Or.inl ⟨same, Or.inl none⟩)
      exact ⟨_, except_bind_ok_iff.mpr ⟨(), exists_ok, rfl⟩⟩
    · intro linkCheck' run
      obtain ⟨⟨⟩, -, run⟩ := except_bind_ok_iff.mp run
      cases run
      exact ⟨rfl, recorded.known first⟩
  | none =>
    rw [known] at found
    have new : firstAt links path = none := found.symm
    have add := @linkAdd_ok_iff this target base path links linkCheck.linkList targetIdx recorded accepted new
    dsimp only
    refine ⟨⟨?_, ?_⟩, ?_⟩
    · rintro ⟨linkCheck', run⟩
      obtain ⟨linkList, run, -⟩ := except_bind_ok_iff.mp run
      obtain ⟨apart, -⟩ := add.mp run
      constructor
      · intro a ha clash
        rcases clash with ⟨same_path, -⟩ | ⟨hpath, none, nested⟩
        · obtain ⟨f, hf⟩ := firstAt_isSome ha
          rw [same_path, new] at hf
          cases hf
        · obtain ⟨below, above⟩ := apart none a ha hpath
          exact nested.elim below above
      · intro f hf
        rw [new] at hf
        cases hf
    · rintro ⟨apart, -⟩
      refine ⟨_, except_bind_ok_iff.mpr ⟨_, add.mpr ⟨?_, rfl⟩, rfl⟩⟩
      intro none a ha hpath
      have free := apart a ha
      exact ⟨fun front => free (Or.inr ⟨hpath, none, Or.inl front⟩),
        fun front => free (Or.inr ⟨hpath, none, Or.inr front⟩)⟩
    · intro linkCheck' run
      obtain ⟨linkList, run, done⟩ := except_bind_ok_iff.mp run
      obtain ⟨-, rfl⟩ := add.mp run
      cases done
      have new' : firstAt links (ManifestLinkCheckItem.mk path target.file targetIdx).path = none := new
      exact ⟨rfl, recorded.add new'⟩

theorem Accepted.front {base : Str} {front rest : List Link} (h : Accepted base (front ++ rest)) :
    Accepted base front := by
  refine ⟨fun l hl => h.outside l (List.mem_append_left _ hl), (List.pairwise_append.mp h.apart).1, ?_⟩
  intro seen l later split
  exact h.fresh seen l (later ++ rest) (by simp [split])

theorem Good.front {front rest : List ManifestTarget} (h : Good this (front ++ rest)) :
    Good this front := by
  refine ⟨fun target ht => h.resolved target (List.mem_append_left _ ht), ?_⟩
  have accepted := h.accepted
  unfold linksOf at accepted
  rw [List.filter_append, List.map_append] at accepted
  exact accepted.front

theorem Good.accepted_base {base : Str} (good : Good this targets)
    (hbase : basePathGet this = .ok base) : Accepted base (linksOf this targets) := by
  have accepted := good.accepted
  rw [hbase] at accepted
  exact accepted

theorem good_concat_iff (isLink : target.type = .link) (good : Good this targets) :
    Good this (targets ++ [target]) ↔ ∃ path base, manifestTargetPath this target = .ok path ∧
      basePathGet this = .ok base ∧
      Accepted base (linksOf this targets ++ [⟨path ++ ['/'], target.file⟩]) := by
  have link : ∀ path, manifestTargetPath this target = .ok path →
      linkOf this target = ⟨path ++ ['/'], target.file⟩ := by
    intro path hpath
    unfold linkOf
    rw [hpath]
    rfl
  constructor
  · intro good'
    obtain ⟨⟨path, hpath⟩, base, hbase⟩ := good'.resolved target (by simp) isLink
    have accepted := good'.accepted_base hbase
    rw [linksOf_concat isLink, link path hpath] at accepted
    exact ⟨path, base, hpath, hbase, accepted⟩
  · rintro ⟨path, base, hpath, hbase, accepted⟩
    constructor
    · intro t ht type
      rcases List.mem_append.mp ht with ht | ht
      · exact good.resolved t ht type
      · cases List.mem_singleton.mp ht
        exact ⟨⟨path, hpath⟩, base, hbase⟩
    · rw [linksOf_concat isLink, link path hpath, hbase]
      exact accepted

theorem good_other_iff (other : target.type ≠ .link) :
    Good this (targets ++ [target]) ↔ Good this targets := by
  constructor
  · exact Good.front
  · intro good
    constructor
    · intro t ht type
      rcases List.mem_append.mp ht with ht | ht
      · exact good.resolved t ht type
      · cases List.mem_singleton.mp ht
        exact absurd type other
    · rw [linksOf_other other]
      exact good.accepted

/-- One round of the loop: the targets so far are good, and then they are recorded. -/
theorem manifestLinkCheckOne_spec (checked : Checked this targets linkCheck)
    (good : Good this targets) (listed : lstGet this.targetList targetIdx = .ok target) :
    ((∃ linkCheck', manifestLinkCheckOne this linkCheck targetIdx = .ok linkCheck') ↔
        Good this (targets ++ [target])) ∧
      ∀ linkCheck', manifestLinkCheckOne this linkCheck targetIdx = .ok linkCheck' →
        Checked this (targets ++ [target]) linkCheck' := by
  by_cases isLink : target.type = .link
  · rw [good_concat_iff isLink good]
    constructor
    · constructor
      · rintro ⟨linkCheck', run⟩
        obtain ⟨path, base, hpath, hbase, run⟩ := (manifestLinkCheckOne_link checked listed isLink).mp run
        exact ⟨path, base, hpath, hbase,
          (linkPathCheck_spec checked.recorded (good.accepted_base hbase)).1.mp ⟨linkCheck', run⟩⟩
      · rintro ⟨path, base, hpath, hbase, accepted⟩
        have runs : ∃ linkCheck', linkPathCheck this linkCheck target targetIdx (path ++ ['/']) base =
            .ok linkCheck' :=
          (linkPathCheck_spec checked.recorded (good.accepted_base hbase)).1.mpr accepted
        obtain ⟨linkCheck', run⟩ := runs
        exact ⟨linkCheck',
          (manifestLinkCheckOne_link checked listed isLink).mpr ⟨path, base, hpath, hbase, run⟩⟩
    · intro linkCheck' run
      obtain ⟨path, base, hpath, hbase, run⟩ := (manifestLinkCheckOne_link checked listed isLink).mp run
      obtain ⟨set, recorded⟩ :=
        (linkPathCheck_spec checked.recorded (good.accepted_base hbase)).2 linkCheck' run
      refine ⟨Or.inr ⟨base, hbase, set⟩, ?_⟩
      rw [linksOf_concat isLink, linkOf, hpath]
      exact recorded
  · have run : manifestLinkCheckOne this linkCheck targetIdx = .ok linkCheck :=
      manifestLinkCheckOne_other listed isLink
    rw [good_other_iff isLink]
    refine ⟨⟨fun _ => good, fun _ => ⟨linkCheck, run⟩⟩, ?_⟩
    intro linkCheck' run'
    rw [run] at run'
    cases run'
    exact ⟨checked.base, (linksOf_other isLink).symm ▸ checked.recorded⟩

theorem manifestLinkCheck_loop {rest : List ManifestTarget} (lists : targets ++ rest = this.targetList)
    (checked : Checked this targets linkCheck) (good : Good this targets) :
    (∃ linkCheck', (List.range' targets.length rest.length).foldlM (manifestLinkCheckOne this)
        linkCheck = .ok linkCheck') ↔ Good this (targets ++ rest) := by
  induction rest generalizing targets linkCheck with
  | nil =>
    rw [List.append_nil]
    exact ⟨fun _ => good, fun _ => ⟨linkCheck, rfl⟩⟩
  | cons target rest ih =>
    have listed : lstGet this.targetList targets.length = .ok target := by
      rw [← lists]
      simp [lstGet]
    obtain ⟨one, next⟩ := manifestLinkCheckOne_spec checked good listed
    have split : targets ++ target :: rest = targets ++ [target] ++ rest := by simp
    have index : targets.length + 1 = (targets ++ [target]).length := by simp
    rw [List.length_cons, List.range'_succ, List.foldlM_cons, split]
    constructor
    · rintro ⟨linkCheck', run⟩
      obtain ⟨middle, step, run⟩ := except_bind_ok_iff.mp run
      rw [index] at run
      exact (ih (split ▸ lists) (next middle step) (one.mp ⟨middle, step⟩)).mp ⟨linkCheck', run⟩
    · intro good'
      obtain ⟨middle, step⟩ := one.mpr good'.front
      obtain ⟨linkCheck', run⟩ := (ih (split ▸ lists) (next middle step) good'.front).mpr good'
      rw [← index] at run
      exact ⟨linkCheck', except_bind_ok_iff.mpr ⟨middle, step, run⟩⟩

theorem good_nil : Good this [] :=
  ⟨nofun, nofun, List.Pairwise.nil, fun _ _ _ split =>
    absurd (show [] = _ from split) (by simp)⟩

theorem checked_nil : Checked this [] {} := by
  refine ⟨Or.inl rfl, List.Pairwise.nil, fun l => ⟨?_, ?_⟩⟩
  · rintro ⟨_, none, -⟩
    cases none
  · exact nofun

theorem manifestLinkCheck_ok_iff : manifestLinkCheck this = .ok () ↔ Good this this.targetList := by
  have loop : (∃ linkCheck', (List.range' 0 this.targetList.length).foldlM
      (manifestLinkCheckOne this) {} = .ok linkCheck') ↔ Good this this.targetList :=
    manifestLinkCheck_loop (List.nil_append _) checked_nil good_nil
  rw [← loop]
  unfold manifestLinkCheck
  rw [List.range_eq_range']
  constructor
  · intro run
    obtain ⟨linkCheck', run, -⟩ := except_bind_ok_iff.mp run
    exact ⟨linkCheck', run⟩
  · rintro ⟨linkCheck', run⟩
    exact except_bind_ok_iff.mpr ⟨linkCheck', run, rfl⟩

end Run

end LinkCheck
