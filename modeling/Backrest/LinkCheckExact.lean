import Backrest.LinkCheck
import Mathlib.Data.List.Count
import Mathlib.Data.List.Perm.Basic

/-!
# Which conflicts the check of link destinations finds

Links conflict when they have one place for two of them. The check is to accept
exactly the target lists without a conflict, in every order. It records only the
first link of a destination path, so a second pair of file links to one file can
pass, and it compares the texts of the paths, so places that another slash or a dot
makes look different can pass.
-/

namespace LinkCheckExact

open Text BackupManifest PathName ManifestTarget LinkCheck Effects

section Conflicts

/-- The directories that an absolute path leads through. A slash more between two of them or at
the end makes no difference, and a dot does not lead on. -/
def parts (path : Str) : List Str := (place path).2.filter (· ≠ ['.'])

/-- Is a path the directory, or below it? -/
def Inside (path dir : Str) : Prop := parts dir <+: parts path

def Subdirectory (path dir : Str) : Prop := Inside path dir ∧ parts path ≠ parts dir

structure Destination where
  path : Str
  file : Option Str
  deriving DecidableEq

def BothFiles (a b : Destination) : Prop := a.file ≠ none ∧ b.file ≠ none

def BothPaths (a b : Destination) : Prop := a.file = none ∧ b.file = none

def Conflict (a b : Destination) : Prop :=
  (parts a.path = parts b.path ∧ ¬ BothFiles a b) ∨
    (BothFiles a b ∧ parts a.path = parts b.path ∧ a.file = b.file) ∨
    (BothPaths a b ∧ (Subdirectory a.path b.path ∨ Subdirectory b.path a.path))

def isLink (target : ManifestTarget) : Bool := target.type = .link

def destinationOf (this : Manifest) (target : ManifestTarget) : Destination :=
  ⟨(manifestTargetPath this target).toOption.getD [], target.file⟩

def destinations (this : Manifest) : List Destination :=
  (this.targetList.filter isLink).map (destinationOf this)

def basePath (this : Manifest) : Except Error Str := do
  manifestTargetPath this (← manifestTargetBase this)

/-- Every link has a destination, and there is a base data path. -/
def Resolved (this : Manifest) : Prop :=
  ∀ target ∈ this.targetList, target.type = .link →
    (∃ path, manifestTargetPath this target = .ok path) ∧ ∃ base, basePath this = .ok base

def baseText (this : Manifest) : Str := (basePath this).toOption.getD []

/-- No link goes into the base data path, and no two links conflict. -/
structure Separate (this : Manifest) : Prop where
  resolved : Resolved this
  outside : ∀ d ∈ destinations this, ¬ Inside d.path (baseText this)
  apart : (destinations this).Pairwise (fun a b => ¬ Conflict a b)

end Conflicts

section Texts

def Destination.link (d : Destination) : Link := ⟨d.path ++ ['/'], d.file⟩

theorem link_injective : Function.Injective Destination.link := by
  rintro ⟨path, file⟩ ⟨path', file'⟩ same
  obtain ⟨samePath, sameFile⟩ := Link.mk.inj same
  exact congr (congrArg Destination.mk (List.append_cancel_right samePath)) sameFile

theorem parts_append (dir rest : Str) : parts (dir ++ '/' :: rest) = parts dir ++ parts rest := by
  rw [parts, parts, parts, place, place, place, strLstNewSplit_concat, List.filter_append,
    List.filter_append]

theorem parts_slash (path : Str) : parts (path ++ ['/']) = parts path := by
  rw [parts_append]
  exact List.append_nil _

/-- The check compares the paths with slashes at their ends. -/
theorem inside_of_text {path dir : Str} (front : dir ++ ['/'] <+: path ++ ['/']) :
    Inside path dir := by
  obtain ⟨rest, whole⟩ := front
  rw [List.append_assoc, List.singleton_append] at whole
  rw [Inside, ← parts_slash path, ← whole, parts_append]
  exact List.prefix_append _ _

/-- Links that conflict while the texts of their paths are neither the same nor nested. -/
def Unseen (a b : Destination) : Prop := Conflict a b ∧ ¬ Clash a.link b.link ∧ a ≠ b

theorem conflict_of_paths {a b : Destination} (paths : BothPaths a b)
    (nested : Inside a.path b.path ∨ Inside b.path a.path) : Conflict a b := by
  by_cases same : parts a.path = parts b.path
  · exact Or.inl ⟨same, fun files => files.1 paths.1⟩
  · refine Or.inr (Or.inr ⟨paths, nested.imp ?_ ?_⟩)
    · exact fun inside => ⟨inside, same⟩
    · exact fun inside => ⟨inside, Ne.symm same⟩

theorem conflict_of_clash {a b : Destination} (clash : Clash a.link b.link) : Conflict a b := by
  rcases clash with ⟨same, file⟩ | ⟨pathA, pathB, front | front⟩
  · have samePath : a.path = b.path := List.append_cancel_right same
    exact Or.inl ⟨congrArg parts samePath, fun files => file.elim files.1 files.2⟩
  · exact conflict_of_paths ⟨pathA, pathB⟩ (Or.inr (inside_of_text front))
  · exact conflict_of_paths ⟨pathA, pathB⟩ (Or.inl (inside_of_text front))

theorem conflict_iff {a b : Destination} :
    Conflict a b ↔ Clash a.link b.link ∨ (a.file ≠ none ∧ a = b) ∨ Unseen a b := by
  constructor
  · intro conflict
    by_cases clash : Clash a.link b.link
    · exact Or.inl clash
    · by_cases same : a = b
      · refine Or.inr (Or.inl ⟨fun none => clash (Or.inl ⟨?_, Or.inl none⟩), same⟩)
        rw [same]
      · exact Or.inr (Or.inr ⟨conflict, clash, same⟩)
  · rintro (clash | ⟨file, rfl⟩ | unseen)
    · exact conflict_of_clash clash
    · exact Or.inr (Or.inl ⟨⟨file, file⟩, rfl, rfl⟩)
    · exact unseen.1

end Texts

section Orders

theorem accepted_of_count {base : Str} {links : List Link} (outside : ∀ l ∈ links, ¬ base <+: l.path)
    (apart : links.Pairwise (fun a b => ¬ Clash a b))
    (firsts : ∀ seen l later, links = seen ++ l :: later → firstAt seen l.path = some l →
      links.count l ≤ 1) : Accepted base links := by
  refine ⟨outside, apart, ?_⟩
  intro seen l later split first found sameFile
  obtain ⟨member, samePath⟩ := firstAt_some found
  obtain rfl : first = l := by
    cases first
    cases l
    exact congr (congrArg Link.mk samePath) sameFile
  have twice : 2 ≤ links.count first := by
    rw [split, List.count_append, List.count_cons_self]
    have := List.count_pos_iff.mpr member
    omega
  exact absurd (firsts seen first later split found) (by omega)

/-- A path at which every file is linked twice is noticed in every order. -/
theorem not_accepted_of_doubled {base : Str} {links : List Link} {l : Link} (member : l ∈ links)
    (doubled : ∀ a ∈ links, a.path = l.path → 2 ≤ links.count a) : ¬ Accepted base links := by
  intro accepted
  obtain ⟨first, found⟩ := firstAt_isSome member
  obtain ⟨here, front, rest, rfl, before⟩ := List.find?_eq_some_iff_append.mp found
  have samePath : first.path = l.path := of_decide_eq_true here
  have twice := doubled first (by simp) samePath
  have absent : first ∉ front := by
    intro there
    simpa [samePath] using before first there
  rw [List.count_append, List.count_cons_self, List.count_eq_zero_of_not_mem absent] at twice
  have again : first ∈ rest := List.count_pos_iff.mp (by omega)
  obtain ⟨middle, later, rfl⟩ := List.append_of_mem again
  have split : front ++ first :: (middle ++ first :: later) = (front ++ first :: middle) ++ first :: later := by
    simp
  have found' : firstAt (front ++ first :: middle) first.path = some first := by
    apply List.find?_eq_some_iff_append.mpr
    exact ⟨by simp, front, middle, rfl, fun a ha => samePath ▸ before a ha⟩
  exact accepted.fresh _ first later split first found' rfl

/-- Put the links that are the only ones to their file before the others. -/
def singlesFirst (links : List Link) : List Link :=
  links.filter (fun l => links.count l ≤ 1) ++ links.filter (fun l => ! decide (links.count l ≤ 1))

theorem singlesFirst_perm (links : List Link) : (singlesFirst links).Perm links :=
  List.filter_append_perm _ _

theorem accepted_singlesFirst {base : Str} {links : List Link}
    (outside : ∀ l ∈ links, ¬ base <+: l.path) (apart : links.Pairwise (fun a b => ¬ Clash a b))
    (single : ∀ l ∈ links, ∃ a ∈ links, a.path = l.path ∧ links.count a ≤ 1) :
    Accepted base (singlesFirst links) := by
  have perm := singlesFirst_perm links
  refine accepted_of_count (fun l hl => outside l (perm.mem_iff.mp hl))
    (perm.symm.pairwise apart fun free clash => free clash.symm) ?_
  intro seen l later split found
  have member : l ∈ links := perm.mem_iff.mp (split ▸ by simp)
  obtain ⟨a, ha, samePath, one⟩ := single l member
  rw [perm.count_eq]
  -- The first link of the path in this order is a single one, and that is `l`.
  have whole : firstAt (singlesFirst links) l.path = some l := by
    unfold firstAt at found ⊢
    rw [split, List.find?_append, found]
    rfl
  have front : ∃ f, firstAt (links.filter (fun l => links.count l ≤ 1)) l.path = some f := by
    rw [← samePath]
    exact firstAt_isSome (List.mem_filter.mpr ⟨ha, decide_eq_true one⟩)
  obtain ⟨f, hf⟩ := front
  have same : f = l := by
    unfold firstAt singlesFirst at whole
    unfold firstAt at hf
    rw [List.find?_append, hf] at whole
    exact Option.some.inj whole
  have chosen := (List.mem_filter.mp (firstAt_some hf).1).2
  rw [same] at chosen
  exact of_decide_eq_true chosen

/-- Records of one kind are in a list only once when no two places of the list hold one of them. -/
theorem pairwise_once {α : Type} [DecidableEq α] {P : α → Prop} {as : List α} :
    as.Pairwise (fun a b => ¬ (P a ∧ a = b)) ↔ ∀ a ∈ as, P a → as.count a ≤ 1 := by
  induction as with
  | nil => exact ⟨fun _ => nofun, fun _ => List.Pairwise.nil⟩
  | cons a rest ih =>
    rw [List.pairwise_cons, ih]
    constructor
    · rintro ⟨first, others⟩ b hb kind
      by_cases same : a = b
      · subst same
        have absent : a ∉ rest := fun again => first a again ⟨kind, rfl⟩
        rw [List.count_cons_self, List.count_eq_zero_of_not_mem absent]
      · rw [List.count_cons_of_ne same]
        exact others b (List.mem_of_ne_of_mem (Ne.symm same) hb) kind
    · intro once
      constructor
      · rintro b hb ⟨kind, rfl⟩
        have count := once a List.mem_cons_self kind
        rw [List.count_cons_self] at count
        have := List.count_pos_iff.mpr hb
        omega
      · intro b hb kind
        have count := once b (List.mem_cons_of_mem a hb) kind
        exact (List.count_le_count_cons).trans count

end Orders

section Exact
variable {this : Manifest}

/-- Every order of the targets shows this. -/
def Noticed (this : Manifest) : Prop :=
  (∃ d ∈ destinations this, baseText this ++ ['/'] <+: d.path ++ ['/']) ∨
    ¬ (destinations this).Pairwise (fun a b => ¬ Clash a.link b.link) ∨
    ∃ d ∈ destinations this, ∀ e ∈ destinations this, e.path = d.path →
      2 ≤ (destinations this).count e

/-- A conflict that is not noticed in every order: two links to one file, or places that are the
same or nested while the texts of their paths are not. -/
def Missed (this : Manifest) : Prop :=
  (∃ d ∈ destinations this, d.file ≠ none ∧ 2 ≤ (destinations this).count d) ∨
    (∃ d ∈ destinations this, Inside d.path (baseText this) ∧
      ¬ baseText this ++ ['/'] <+: d.path ++ ['/']) ∨
    ¬ (destinations this).Pairwise (fun a b => ¬ Unseen a b)

/-- The check accepts the targets without a conflict and no others, in every order. -/
def OrderExact (this : Manifest) : Prop :=
  ∀ targetList, targetList.Perm this.targetList →
    (manifestLinkCheck { this with targetList := targetList } = .ok () ↔ Separate this)

theorem separate_iff : Separate this ↔ Resolved this ∧
    (∀ d ∈ destinations this, ¬ baseText this ++ ['/'] <+: d.path ++ ['/']) ∧
    (destinations this).Pairwise (fun a b => ¬ Clash a.link b.link) ∧ ¬ Missed this := by
  have outside : (∀ d ∈ destinations this, ¬ Inside d.path (baseText this)) ↔
      (∀ d ∈ destinations this, ¬ baseText this ++ ['/'] <+: d.path ++ ['/']) ∧
        ¬ ∃ d ∈ destinations this, Inside d.path (baseText this) ∧
          ¬ baseText this ++ ['/'] <+: d.path ++ ['/'] := by
    constructor
    · intro free
      refine ⟨fun d hd front => free d hd (inside_of_text front), ?_⟩
      rintro ⟨d, hd, inside, -⟩
      exact free d hd inside
    · rintro ⟨text, unseen⟩ d hd inside
      exact unseen ⟨d, hd, inside, text d hd⟩
  have apart : (destinations this).Pairwise (fun a b => ¬ Conflict a b) ↔
      (destinations this).Pairwise (fun a b => ¬ Clash a.link b.link) ∧
        (¬ ∃ d ∈ destinations this, d.file ≠ none ∧ 2 ≤ (destinations this).count d) ∧
        (destinations this).Pairwise (fun a b => ¬ Unseen a b) := by
    have once : (¬ ∃ d ∈ destinations this, d.file ≠ none ∧ 2 ≤ (destinations this).count d) ↔
        (destinations this).Pairwise (fun a b => ¬ (a.file ≠ none ∧ a = b)) := by
      rw [pairwise_once]
      simp only [not_exists, not_and, Nat.not_le, Nat.lt_succ_iff]
    simp only [conflict_iff, not_or, List.pairwise_and_iff, once]
  unfold Missed
  rw [not_or, not_or, not_not]
  constructor
  · rintro ⟨resolved, free, conflicts⟩
    obtain ⟨text, unseen⟩ := outside.mp free
    obtain ⟨clash, once, nested⟩ := apart.mp conflicts
    exact ⟨resolved, text, clash, once, unseen, nested⟩
  · rintro ⟨resolved, text, clash, once, unseen, nested⟩
    exact ⟨resolved, outside.mpr ⟨text, unseen⟩, apart.mpr ⟨clash, once, nested⟩⟩

theorem linksOf_destinations : linksOf this this.targetList = (destinations this).map Destination.link := by
  unfold linksOf destinations isLink
  rw [List.map_map]
  rfl

theorem count_link (d : Destination) :
    ((destinations this).map Destination.link).count d.link = (destinations this).count d :=
  List.count_map_of_injective _ _ link_injective d

theorem basePathGet_eq : basePathGet this = (basePath this).map (· ++ ['/']) := by
  unfold basePathGet basePath
  cases manifestTargetBase this with
  | error e => rfl
  | ok base =>
    dsimp only [bind, Except.bind]
    cases manifestTargetPath this base with
    | error e => rfl
    | ok path => rfl

theorem basePathGet_ok {base : Str} (h : basePath this = .ok base) :
    basePathGet this = .ok (baseText this ++ ['/']) := by
  rw [basePathGet_eq, baseText, h]
  rfl

theorem accepted_nil {base : Str} : Accepted base [] :=
  ⟨nofun, List.Pairwise.nil, fun _ _ _ split => absurd split (by simp)⟩

theorem accepted_base_iff {targetList : List ManifestTarget} (resolved : Resolved this)
    (perm : targetList.Perm this.targetList) :
    Accepted ((basePathGet this).toOption.getD []) (linksOf this targetList) ↔
      Accepted (baseText this ++ ['/']) (linksOf this targetList) := by
  by_cases none : targetList.filter (·.type = .link) = []
  · unfold linksOf
    rw [none]
    exact iff_of_true accepted_nil accepted_nil
  · obtain ⟨target, ht⟩ := List.exists_mem_of_ne_nil _ none
    obtain ⟨ht, type⟩ := List.mem_filter.mp ht
    obtain ⟨-, base, hbase⟩ := resolved target (perm.mem_iff.mp ht) (of_decide_eq_true type)
    rw [basePathGet_ok hbase]
    exact Iff.rfl

theorem reordered_ok_iff (names : (this.targetList.map (·.name)).Nodup)
    {targetList : List ManifestTarget} (perm : targetList.Perm this.targetList) :
    manifestLinkCheck { this with targetList := targetList } = .ok () ↔
      Resolved this ∧ Accepted (baseText this ++ ['/']) (linksOf this targetList) := by
  generalize hthat : { this with targetList := targetList } = that
  have same_base : manifestTargetBase that = manifestTargetBase this := by
    rw [← hthat]
    exact manifestTargetFind_perm perm names _
  have same_path : manifestTargetPath that = manifestTargetPath this :=
    funext (manifestTargetPath_congr same_base)
  have same_get : basePathGet that = basePathGet this := by
    unfold basePathGet
    rw [same_base, same_path]
  have same_links : linksOf that = linksOf this := by
    unfold linksOf linkOf
    rw [same_path]
  have list : that.targetList = targetList := hthat ▸ rfl
  rw [manifestLinkCheck_ok_iff, list]
  constructor
  · rintro ⟨resolved, accepted⟩
    rw [same_path, same_get] at resolved
    rw [same_get, same_links] at accepted
    have resolved_this : Resolved this := by
      intro target ht type
      obtain ⟨path, base, hbase⟩ := resolved target (perm.mem_iff.mpr ht) type
      refine ⟨path, ?_⟩
      cases known : basePath this with
      | ok base => exact ⟨base, rfl⟩
      | error e =>
        rw [basePathGet_eq, known] at hbase
        cases hbase
    exact ⟨resolved_this, (accepted_base_iff resolved_this perm).mp accepted⟩
  · rintro ⟨resolved, accepted⟩
    constructor
    · intro target ht type
      obtain ⟨path, base, hbase⟩ := resolved target (perm.mem_iff.mp ht) type
      rw [same_path, same_get]
      exact ⟨path, _, basePathGet_ok hbase⟩
    · rw [same_get, same_links]
      exact (accepted_base_iff resolved perm).mpr accepted

theorem linksOf_perm {targetList : List ManifestTarget} (perm : targetList.Perm this.targetList) :
    (linksOf this targetList).Perm ((destinations this).map Destination.link) := by
  rw [← linksOf_destinations]
  exact (perm.filter _).map _

theorem not_accepted_of_noticed (noticed : Noticed this) {links : List Link}
    (perm : links.Perm ((destinations this).map Destination.link)) :
    ¬ Accepted (baseText this ++ ['/']) links := by
  intro accepted
  rcases noticed with ⟨d, hd, front⟩ | clash | ⟨d, hd, doubled⟩
  · exact accepted.outside d.link (perm.mem_iff.mpr (List.mem_map_of_mem hd)) front
  · apply clash
    have apart := perm.pairwise accepted.apart fun free clash => free clash.symm
    exact List.pairwise_map.mp apart
  · refine not_accepted_of_doubled (perm.mem_iff.mpr (List.mem_map_of_mem hd)) ?_ accepted
    intro l hl samePath
    obtain ⟨e, he, rfl⟩ := List.mem_map.mp (perm.mem_iff.mp hl)
    rw [perm.count_eq, count_link]
    exact doubled e he (List.append_cancel_right samePath)

theorem linksOf_filter {targetList : List ManifestTarget} (keep : Link → Bool) :
    linksOf this (targetList.filter fun target => keep (linkOf this target)) =
      (linksOf this targetList).filter keep := by
  unfold linksOf
  rw [List.filter_map, List.filter_filter, List.filter_filter]
  congr 1
  apply List.filter_congr
  intro target _
  exact Bool.and_comm _ _

theorem exists_order : ∃ targetList, targetList.Perm this.targetList ∧
    linksOf this targetList = singlesFirst (linksOf this this.targetList) := by
  let single : Link → Bool := fun l => (linksOf this this.targetList).count l ≤ 1
  refine ⟨this.targetList.filter (fun target => single (linkOf this target)) ++
    this.targetList.filter (fun target => ! single (linkOf this target)),
    List.filter_append_perm _ _, ?_⟩
  have split : ∀ a b, linksOf this (a ++ b) = linksOf this a ++ linksOf this b := by
    intro a b
    simp [linksOf]
  rw [split, linksOf_filter single, linksOf_filter fun l => ! single l]
  rfl

/-- Without a clash and without a second link to a file every destination is there once. -/
theorem count_le_one (apart : (destinations this).Pairwise (fun a b => ¬ Clash a.link b.link))
    (quiet : ¬ Missed this) : ∀ d ∈ destinations this, (destinations this).count d ≤ 1 := by
  intro d hd
  by_cases file : d.file = none
  · have once : (destinations this).Pairwise (fun a b => ¬ (a.file = none ∧ a = b)) := by
      refine apart.imp fun free => ?_
      rintro ⟨none, rfl⟩
      exact free (Or.inl ⟨rfl, Or.inl none⟩)
    exact pairwise_once.mp once d hd file
  · by_contra twice
    exact quiet (Or.inl ⟨d, hd, file, by omega⟩)

theorem not_separate_of_noticed (noticed : Noticed this) : ¬ Separate this := by
  intro separate
  obtain ⟨-, outside, apart, quiet⟩ := separate_iff.mp separate
  rcases noticed with ⟨d, hd, front⟩ | clash | ⟨d, hd, doubled⟩
  · exact outside d hd front
  · exact clash apart
  · have once := count_le_one apart quiet d hd
    have twice := doubled d hd rfl
    omega

/-- The check is exact in every order if and only if the targets have no conflict it can miss, or a
destination that cannot be found, or a conflict that every order shows. -/
theorem manifestLinkCheck_exact_iff (this : Manifest)
    (names : (this.targetList.map (·.name)).Nodup) :
    OrderExact this ↔ ¬ Missed this ∨ ¬ Resolved this ∨ Noticed this := by
  constructor
  · intro exact_order
    by_contra bad
    obtain ⟨missed, resolved, quiet⟩ : Missed this ∧ Resolved this ∧ ¬ Noticed this := by
      simpa [not_or] using bad
    have not_separate : ¬ Separate this := fun separate => (separate_iff.mp separate).2.2.2 missed
    obtain ⟨targetList, perm, order⟩ := @exists_order this
    apply not_separate
    apply (exact_order targetList perm).mp
    refine (reordered_ok_iff names perm).mpr ⟨resolved, ?_⟩
    obtain ⟨outside, rest⟩ := not_or.mp quiet
    obtain ⟨apart, singles⟩ := not_or.mp rest
    rw [order, linksOf_destinations]
    apply accepted_singlesFirst
    · intro l hl front
      obtain ⟨d, hd, rfl⟩ := List.mem_map.mp hl
      exact outside ⟨d, hd, front⟩
    · exact List.pairwise_map.mpr (not_not.mp apart)
    · intro l hl
      obtain ⟨d, hd, rfl⟩ := List.mem_map.mp hl
      by_contra none
      apply singles
      refine ⟨d, hd, fun e he samePath => ?_⟩
      by_contra one
      exact none ⟨e.link, List.mem_map_of_mem he, congrArg (· ++ ['/']) samePath,
        by rw [count_link]; omega⟩
  · intro condition targetList perm
    have links := linksOf_perm perm
    rw [reordered_ok_iff names perm]
    by_cases noticed : Noticed this
    · constructor
      · rintro ⟨-, accepted⟩
        exact absurd accepted (not_accepted_of_noticed noticed links)
      · exact fun separate => absurd separate (not_separate_of_noticed noticed)
    · by_cases resolved : Resolved this
      · obtain ⟨outside, rest⟩ := not_or.mp noticed
        have apart := not_not.mp (not_or.mp rest).1
        have free : ∀ d ∈ destinations this, ¬ baseText this ++ ['/'] <+: d.path ++ ['/'] :=
          fun d hd front => outside ⟨d, hd, front⟩
        have quiet : ¬ Missed this := by
          rcases condition with quiet | unresolved | shown
          · exact quiet
          · exact absurd resolved unresolved
          · exact absurd shown noticed
        refine iff_of_true ⟨resolved, ?_⟩ (separate_iff.mpr ⟨resolved, free, apart, quiet⟩)
        apply accepted_of_count
        · intro l hl front
          obtain ⟨d, hd, rfl⟩ := List.mem_map.mp (links.mem_iff.mp hl)
          exact free d hd front
        · exact links.symm.pairwise (List.pairwise_map.mpr apart) fun free clash => free clash.symm
        · intro seen l later split _
          have member : l ∈ linksOf this targetList := by
            rw [split]
            simp
          obtain ⟨d, hd, rfl⟩ := List.mem_map.mp (links.mem_iff.mp member)
          rw [links.count_eq, count_link]
          exact count_le_one apart quiet d hd
      · exact ⟨fun ok => absurd ok.1 resolved, fun separate => absurd separate.resolved resolved⟩

def baseTarget : ManifestTarget := ⟨"pg_data".toList, .path, some "/pg".toList, none, 0, none⟩

/-- A file of the data directory that is a link to a file below `/etc`. -/
def fileTarget (name file : Str) : ManifestTarget :=
  ⟨"pg_data/".toList ++ name, .link, some "/etc".toList, some file, 0, none⟩

/-- Two of the three file links go to one file. -/
def sharedFile : Manifest where
  targetList := [baseTarget, fileTarget "hba".toList "hba".toList,
    fileTarget "ident".toList "main".toList, fileTarget "main".toList "main".toList]

theorem destinations_sharedFile : destinations sharedFile =
    [⟨"/etc".toList, some "hba".toList⟩, ⟨"/etc".toList, some "main".toList⟩,
      ⟨"/etc".toList, some "main".toList⟩] := by decide +kernel

/-- A path link below another one whose destination ends in a slash. -/
def slashedPath : Manifest where
  targetList := [baseTarget, ⟨"pg_data/log".toList, .link, some "/a/b".toList, none, 0, none⟩,
    ⟨"pg_data/pg_wal".toList, .link, some "/a/".toList, none, 0, none⟩]

theorem destinations_slashedPath :
    destinations slashedPath = [⟨"/a/b".toList, none⟩, ⟨"/a/".toList, none⟩] := by decide +kernel

theorem manifestLinkCheck_misses_file :
    (manifestLinkCheck sharedFile = .ok () ∧ ¬ Separate sharedFile ∧
      manifestLinkCheck { sharedFile with targetList := sharedFile.targetList.reverse } ≠ .ok () ∧
      ¬ OrderExact sharedFile) ∧
    (manifestLinkCheck slashedPath = .ok () ∧ ¬ Separate slashedPath ∧ ¬ OrderExact slashedPath) := by
  have passes : manifestLinkCheck sharedFile = .ok () := by rfl
  have conflict : ¬ Separate sharedFile := by
    intro separate
    have apart := separate.apart
    rw [destinations_sharedFile] at apart
    have pair := (List.pairwise_cons.mp (List.pairwise_cons.mp apart).2).1 _ List.mem_cons_self
    exact pair (Or.inr (Or.inl ⟨⟨nofun, nofun⟩, rfl, rfl⟩))
  have passes' : manifestLinkCheck slashedPath = .ok () := by rfl
  have conflict' : ¬ Separate slashedPath := by
    intro separate
    have apart := separate.apart
    rw [destinations_slashedPath] at apart
    apply (List.pairwise_cons.mp apart).1 _ List.mem_cons_self
    exact conflict_of_paths ⟨rfl, rfl⟩ (Or.inl (by decide +kernel : _ <+: _))
  refine ⟨⟨passes, conflict, by decide +kernel, ?_⟩, passes', conflict', ?_⟩
  · intro exact_order
    exact conflict ((exact_order _ (List.Perm.refl _)).mp passes)
  · intro exact_order
    exact conflict' ((exact_order _ (List.Perm.refl _)).mp passes')

/-- Links to two files of one path. -/
def ownFiles : Manifest where
  targetList := [baseTarget, fileTarget "hba".toList "hba".toList,
    fileTarget "main".toList "main".toList]

theorem manifestLinkCheck_exact_ownFiles : OrderExact ownFiles := by
  have list : destinations ownFiles =
      [⟨"/etc".toList, some "hba".toList⟩, ⟨"/etc".toList, some "main".toList⟩] := by decide +kernel
  refine (manifestLinkCheck_exact_iff ownFiles (by decide +kernel)).mpr (Or.inl ?_)
  unfold Missed
  rw [list]
  rintro (⟨d, hd, -, twice⟩ | ⟨d, hd, inside, -⟩ | nested)
  · have once : ∀ d ∈ ([⟨"/etc".toList, some "hba".toList⟩, ⟨"/etc".toList, some "main".toList⟩] :
        List Destination), List.count d [⟨"/etc".toList, some "hba".toList⟩,
          ⟨"/etc".toList, some "main".toList⟩] ≤ 1 := by decide +kernel
    exact absurd (once d hd) (by omega)
  · have apart : ∀ d ∈ ([⟨"/etc".toList, some "hba".toList⟩, ⟨"/etc".toList, some "main".toList⟩] :
        List Destination), ¬ parts (baseText ownFiles) <+: parts d.path := by decide +kernel
    exact apart d hd inside
  · apply nested
    refine List.pairwise_pair.mpr ?_
    rintro ⟨⟨-, notBoth⟩ | ⟨-, -, same⟩ | ⟨paths, -⟩, -⟩
    · exact notBoth ⟨nofun, nofun⟩
    · exact absurd same (by decide +kernel)
    · exact absurd paths.1 nofun

end Exact

end LinkCheckExact
