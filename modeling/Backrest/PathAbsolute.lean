import Backrest.PathName
import Backrest.LexicalPath

/-!
# Absolute paths

`strPathAbsolute` is held against the lexical resolution of the base followed by the path.
The loop over the parts is that resolution. What it gives is written out with the base in
front, and a base that is the root has one empty component too many; and the last check takes
every component that begins with two dots for a `..`.
-/

namespace PathAbsolute

open Text PathName LexicalPath

abbrev Component (c : Str) : Prop := c ≠ [] ∧ '/' ∉ c

/-- The path with these components; without any it is the root. -/
def absoluteText (comps : List Str) : Str :=
  if comps = [] then ['/'] else strLstJoin ([] :: comps) ['/']

structure AbsolutePath where
  comps : List Str
  valid : ∀ c ∈ comps, Component c

def AbsolutePath.text (this : AbsolutePath) : Str := absoluteText this.comps

structure BasePath extends AbsolutePath where
  plain : ∀ c ∈ comps, c ≠ "..".toList ∧ c ≠ ".".toList

structure StraightPath extends AbsolutePath where
  straight : ∀ c ∈ comps, c ≠ "..".toList

structure RelativePath where
  comps : List Str
  nonempty : comps ≠ []
  valid : ∀ c ∈ comps, Component c
  trailing : Bool

/-- The last part is empty when the path ends in a slash. -/
def RelativePath.parts (this : RelativePath) : List Str :=
  this.comps ++ if this.trailing then [[]] else []

def RelativePath.text (this : RelativePath) : Str := strLstJoin this.parts ['/']

def part (c : Str) : PathPart Str :=
  if c = "..".toList then .up else if c = ".".toList then .here else .name c

def walk (base : BasePath) (path : RelativePath) : List (PathPart Str) :=
  (base.comps ++ path.comps).map part

/-- The lexical resolution is returned, and an assertion fails when there is none. -/
def Resolved (base : BasePath) (path : RelativePath) : Prop :=
  match resolve [] (walk base path) with
  | some place => strPathAbsolute path.text base.text = .ok (absoluteText place.reverse)
  | none => ∃ message, strPathAbsolute path.text base.text = .error ⟨.assertError, message⟩

/-- Nothing below the root is left of the root, and nothing that is left begins with two
dots. -/
def Writable (base : BasePath) (path : RelativePath) : Prop :=
  ∀ c, Left (walk base path) c → base.comps ≠ [] ∧ ¬ "..".toList <+: c

section Texts

theorem absoluteText_eq {comps : List Str} (some' : comps ≠ []) :
    absoluteText comps = comps.flatMap ('/' :: ·) := by
  rw [absoluteText, if_neg some', strLstJoin_cons, List.nil_append]

theorem absoluteText_begins (comps : List Str) :
    strBeginsWith (absoluteText comps) ['/'] = true := by
  cases comps with
  | nil => rfl
  | cons c comps =>
    rw [absoluteText_eq (List.cons_ne_nil c comps)]
    rfl

theorem RelativePath.absent (path : RelativePath) : ∀ c ∈ path.parts, '/' ∉ c := by
  intro c mem
  rcases List.mem_append.mp mem with inside | last
  · exact (path.valid c inside).2
  · cases trailing : path.trailing with
    | true =>
      rw [trailing, if_pos rfl, List.mem_singleton] at last
      rw [last]
      exact List.not_mem_nil
    | false => simp [trailing] at last

theorem RelativePath.split_text (path : RelativePath) :
    strLstNewSplit '/' path.text = path.parts := by
  apply strLstNewSplit_join _ path.absent
  exact List.append_ne_nil_of_left_ne_nil path.nonempty _

theorem RelativePath.not_begins (path : RelativePath) :
    strBeginsWith path.text ['/'] = false := by
  obtain ⟨c, rest, comps⟩ := List.exists_cons_of_ne_nil path.nonempty
  obtain ⟨filled, absent⟩ := path.valid c (comps ▸ List.mem_cons_self)
  obtain ⟨d, later, rfl⟩ := List.exists_cons_of_ne_nil filled
  have parts : path.parts = (d :: later) :: (rest ++ if path.trailing then [[]] else []) := by
    rw [RelativePath.parts, comps, List.cons_append]
  have differ : '/' ≠ d := fun same => absent (same ▸ List.mem_cons_self)
  rw [RelativePath.text, parts, strLstJoin_cons]
  simp [strBeginsWith, List.isPrefixOf, differ]

/-- The components of the base as the code splits it: the root ends in an empty one. -/
def rootParts (base : BasePath) : List Str := if base.comps = [] then [[], []] else [[]]

theorem BasePath.split_text (base : BasePath) :
    strLstNewSplit '/' base.text = rootParts base ++ base.comps := by
  rw [rootParts, AbsolutePath.text, absoluteText]
  split
  next root => rw [root]; rfl
  next below =>
    apply strLstNewSplit_join (List.cons_ne_nil _ _)
    intro c mem
    rcases List.mem_cons.mp mem with rfl | inside
    · exact List.not_mem_nil
    · exact (base.valid c inside).2

theorem absent_of_mem_split {s c : Str} (mem : c ∈ strLstNewSplit '/' s) : '/' ∉ c := by
  induction s generalizing c with
  | nil =>
    rw [List.mem_singleton.mp mem]
    exact List.not_mem_nil
  | cons d s ih =>
    rw [strLstNewSplit] at mem
    by_cases slash : d = '/'
    · rw [if_pos slash] at mem
      rcases List.mem_cons.mp mem with rfl | later
      · exact List.not_mem_nil
      · exact ih later
    · rw [if_neg slash] at mem
      cases split : strLstNewSplit '/' s with
      | nil => exact absurd split strLstNewSplit_ne_nil
      | cons item items =>
        rw [split] at mem ih
        rcases List.mem_cons.mp mem with rfl | later
        · rw [List.mem_cons, not_or]
          exact ⟨fun same => slash same.symm, ih List.mem_cons_self⟩
        · exact ih (List.mem_cons_of_mem item later)

/-- Every path without an empty component, but for one at the end, is one of these. -/
theorem exists_relativePath {path : Str} (some' : path ≠ [])
    (filled : ∀ c ∈ (strLstNewSplit '/' path).dropLast, c ≠ []) :
    ∃ this : RelativePath, this.text = path := by
  have joined := strLstJoin_split '/' path
  have absent : ∀ c ∈ strLstNewSplit '/' path, '/' ∉ c := fun c mem => absent_of_mem_split mem
  rcases List.eq_nil_or_concat (strLstNewSplit '/' path) with none | ⟨front, last, split⟩
  · exact absurd none strLstNewSplit_ne_nil
  · rw [List.concat_eq_append] at split
    rw [split, List.dropLast_concat] at filled
    rw [split] at joined absent
    have valid : ∀ c ∈ front, Component c :=
      fun c mem => ⟨filled c mem, absent c (List.mem_append_left _ mem)⟩
    by_cases empty : last = []
    · subst empty
      have nonempty : front ≠ [] := by
        rintro rfl
        exact some' joined.symm
      exact ⟨⟨front, nonempty, valid, true⟩, joined⟩
    · refine ⟨⟨front ++ [last], by simp, ?_, false⟩, ?_⟩
      · intro c mem
        rcases List.mem_append.mp mem with old | new
        · exact valid c old
        · rw [List.mem_singleton.mp new]
          exact ⟨empty, absent last (by simp)⟩
      · rw [← joined, RelativePath.text, RelativePath.parts]
        simp

/-- Every path with a slash in front of each component is one of these. -/
theorem exists_absolutePath {path : Str} {comps : List Str} (some' : comps ≠ [])
    (split : strLstNewSplit '/' path = [] :: comps) (filled : ∀ c ∈ comps, c ≠ []) :
    ∃ this : AbsolutePath, this.comps = comps ∧ this.text = path := by
  have valid : ∀ c ∈ comps, Component c := by
    intro c mem
    exact ⟨filled c mem, absent_of_mem_split (split ▸ List.mem_cons_of_mem [] mem)⟩
  refine ⟨⟨comps, valid⟩, rfl, ?_⟩
  rw [AbsolutePath.text, absoluteText, if_neg some', ← split, strLstJoin_split]

end Texts

section Loop

variable {this base : Str} {front tail : List Str}

theorem pathPartLoop_eq (last : front.getLastD [] = []) (ends : tail = [] ∨ tail = [[]])
    {place comps : List Str} (named : ∀ c ∈ place, c ≠ []) (valid : ∀ c ∈ comps, c ≠ []) :
    pathPartLoop this base (front ++ place.reverse) (comps ++ tail) =
      match resolve place (comps.map part) with
      | some after => .ok (front ++ after.reverse)
      | none => .error (tooFarError this base) := by
  induction comps generalizing place with
  | nil =>
    rcases ends with rfl | rfl
    · rfl
    · rfl
  | cons c comps ih =>
    have filled : c.length ≠ 0 :=
      fun none => valid c List.mem_cons_self (List.length_eq_zero_iff.mp none)
    have later : ∀ d ∈ comps, d ≠ [] := fun d mem => valid d (List.mem_cons_of_mem c mem)
    rw [List.cons_append, List.map_cons, pathPartLoop, if_neg filled, part]
    by_cases isUp : c = "..".toList
    · rw [if_pos isUp, if_pos isUp]
      cases place with
      | nil =>
        rw [List.reverse_nil, List.append_nil, last]
        rfl
      | cons b place =>
        have isLast : (front ++ (b :: place).reverse).getLastD [] = b := by simp
        have others : (front ++ (b :: place).reverse).dropLast = front ++ place.reverse := by
          rw [List.reverse_cons, ← List.append_assoc, List.dropLast_concat]
        have below : b.length ≠ 0 :=
          fun none => named b List.mem_cons_self (List.length_eq_zero_iff.mp none)
        rw [isLast, if_neg below, others, resolve]
        exact ih (fun d mem => named d (List.mem_cons_of_mem b mem)) later
    · rw [if_neg isUp, if_neg isUp]
      by_cases isHere : c = ".".toList
      · rw [if_neg (not_not.mpr isHere), if_pos isHere, resolve]
        exact ih named later
      · rw [if_pos isHere, if_neg isHere, resolve, List.append_assoc, ← List.reverse_cons]
        apply ih _ later
        intro d mem
        rcases List.mem_cons.mp mem with rfl | old
        · exact valid d List.mem_cons_self
        · exact named d old

end Loop

section Stray

variable {q c : Str} {comps : List Str}

/-- A text that begins with a slash is found behind a component or not at all. -/
theorem slash_infix_append (absent : '/' ∉ c) {t : Str} :
    '/' :: q <:+: c ++ t ↔ '/' :: q <:+: t := by
  induction c with
  | nil => rfl
  | cons d c ih =>
    have differ : '/' ≠ d := fun same => absent (same ▸ List.mem_cons_self)
    rw [List.cons_append, List.infix_cons_iff, List.cons_prefix_cons,
      ih fun mem => absent (List.mem_cons_of_mem d mem)]
    constructor
    · rintro (⟨same, -⟩ | inside)
      · exact absurd same differ
      · exact inside
    · exact Or.inr

theorem slash_infix_iff (absent : ∀ c ∈ comps, '/' ∉ c) :
    '/' :: q <:+: comps.flatMap ('/' :: ·) ↔
      ∃ front c back, comps = front ++ c :: back ∧ q <+: c ++ back.flatMap ('/' :: ·) := by
  induction comps with
  | nil => simp
  | cons c comps ih =>
    rw [List.forall_mem_cons] at absent
    rw [List.flatMap_cons, List.cons_append, List.infix_cons_iff, List.cons_prefix_cons,
      slash_infix_append absent.1, ih absent.2]
    constructor
    · rintro (⟨-, begins⟩ | ⟨front, d, back, rfl, begins⟩)
      · exact ⟨[], c, comps, rfl, begins⟩
      · exact ⟨c :: front, d, back, rfl, begins⟩
    · rintro ⟨front, d, back, split, begins⟩
      cases front with
      | nil =>
        obtain ⟨rfl, rfl⟩ := List.cons.inj split
        exact Or.inl ⟨rfl, begins⟩
      | cons b front =>
        obtain ⟨rfl, rfl⟩ := List.cons.inj split
        exact Or.inr ⟨front, d, back, rfl, begins⟩

/-- What follows a component begins with a slash, so it adds nothing to a text without one. -/
theorem prefix_component {back : List Str} (absent : '/' ∉ q) :
    q <+: c ++ back.flatMap ('/' :: ·) ↔ q <+: c := by
  constructor
  · intro begins
    induction q generalizing c with
    | nil => exact List.nil_prefix
    | cons d q ih =>
      rw [List.mem_cons, not_or] at absent
      cases c with
      | nil =>
        cases back with
        | nil => exact begins
        | cons b back =>
          rw [List.nil_append, List.flatMap_cons, List.cons_append, List.cons_prefix_cons] at begins
          exact absurd begins.1.symm absent.1
      | cons e c =>
        rw [List.cons_append, List.cons_prefix_cons] at begins
        exact List.cons_prefix_cons.mpr ⟨begins.1, ih absent.2 begins.2⟩
  · exact fun begins => List.prefix_append_of_prefix begins

theorem strayCheck_eq_ok {result : Str} :
    strayCheck result = .ok result ↔ ¬ "/..".toList <:+: result ∧ ¬ "//".toList <:+: result := by
  rw [strayCheck, ← not_or]
  by_cases stray : "/..".toList <:+: result ∨ "//".toList <:+: result
  · rw [if_pos stray]
    constructor
    · intro same
      cases same
    · exact fun clean => absurd stray clean
  · rw [if_neg stray]
    exact ⟨fun _ => stray, fun _ => rfl⟩

/-- The last check refuses the components that begin with two dots. -/
theorem strayCheck_absoluteText (valid : ∀ c ∈ comps, Component c) :
    strayCheck (absoluteText comps) = .ok (absoluteText comps) ↔
      ∀ c ∈ comps, ¬ "..".toList <+: c := by
  rw [strayCheck_eq_ok]
  by_cases root : comps = []
  · subst root
    simp [absoluteText]
    decide
  have absent : ∀ c ∈ comps, '/' ∉ c := fun c mem => (valid c mem).2
  have double : ¬ "//".toList <:+: comps.flatMap ('/' :: ·) := by
    intro found
    obtain ⟨front, c, back, split, begins⟩ := (@slash_infix_iff ['/'] comps absent).mp found
    obtain ⟨filled, noSlash⟩ := valid c (by rw [split]; simp)
    cases c with
    | nil => exact filled rfl
    | cons d c =>
      rw [List.cons_append, List.cons_prefix_cons] at begins
      exact noSlash (begins.1 ▸ List.mem_cons_self)
  rw [absoluteText_eq root]
  constructor
  · rintro ⟨clean, -⟩ c mem begins
    obtain ⟨front, back, split⟩ := List.append_of_mem mem
    apply clean
    exact (slash_infix_iff absent).mpr
      ⟨front, c, back, split, List.prefix_append_of_prefix begins⟩
  · intro clean
    refine ⟨?_, double⟩
    intro found
    obtain ⟨front, c, back, split, begins⟩ := (@slash_infix_iff "..".toList comps absent).mp found
    exact clean c (by rw [split]; simp) ((prefix_component (by decide)).mp begins)

end Stray

section Resolution

variable {base : BasePath} {path : RelativePath}

theorem part_eq_name {c d : Str} (named : part c = .name d) : c = d := by
  rw [part] at named
  split at named
  · cases named
  · split at named
    · cases named
    · exact PathPart.name.inj named

/-- The walk begins by going down to the base. -/
theorem resolve_walk (base : BasePath) (path : RelativePath) :
    resolve [] (walk base path) = resolve base.comps.reverse (path.comps.map part) := by
  have names : base.comps.map part = base.comps.map .name := by
    apply List.map_congr_left
    intro c mem
    obtain ⟨notUp, notHere⟩ := base.plain c mem
    rw [part, if_neg notUp, if_neg notHere]
  rw [walk, List.map_append, names, resolve_names, List.append_nil]

theorem component_of_left {c : Str} (left : Left (walk base path) c) : Component c := by
  obtain ⟨front, back, split, -⟩ := left
  have mem : .name c ∈ walk base path := by
    rw [split]
    simp
  obtain ⟨d, inside, named⟩ := List.mem_map.mp mem
  rw [← part_eq_name named]
  rcases List.mem_append.mp inside with old | new
  · exact base.valid d old
  · exact path.valid d new

/-- The names that are left are written behind the base that is the root as behind an empty
component. -/
theorem strPathAbsolute_relative (base : BasePath) (path : RelativePath) :
    strPathAbsolute path.text base.text =
      match resolve [] (walk base path) with
      | some place => strayCheck
          (if base.comps = [] ∧ place ≠ [] then '/' :: absoluteText place.reverse
          else absoluteText place.reverse)
      | none => .error (tooFarError path.text base.text) := by
  have begins : strBeginsWith base.text ['/'] = true := absoluteText_begins base.comps
  have loop := @pathPartLoop_eq path.text base.text (rootParts base)
    (if path.trailing then [[]] else []) (by rw [rootParts]; split <;> rfl)
    (by cases path.trailing <;> simp) base.comps.reverse path.comps
    (fun c mem => (base.valid c (List.mem_reverse.mp mem)).1) (fun c mem => (path.valid c mem).1)
  rw [List.reverse_reverse] at loop
  rw [strPathAbsolute, path.not_begins, if_neg Bool.false_ne_true, if_pos begins,
    base.split_text, path.split_text, RelativePath.parts, loop, resolve_walk]
  cases resolve base.comps.reverse (path.comps.map part) with
  | none => rfl
  | some place =>
    have filled : place.reverse ≠ [] ↔ place ≠ [] := not_congr List.reverse_eq_nil_iff
    dsimp only
    congr 1
    by_cases root : base.comps = []
    · rw [rootParts, if_pos root]
      by_cases none : place = []
      · subst none
        simp [absoluteText, strLstJoin, List.intercalate]
      · rw [if_neg (by simp), if_pos ⟨root, none⟩, absoluteText_eq (filled.mpr none)]
        exact strLstJoin_cons '/' [] ([] :: place.reverse)
    · have notRoot : ¬ (base.comps = [] ∧ place ≠ []) := fun both => root both.1
      rw [rootParts, if_neg root, if_neg notRoot]
      by_cases none : place = []
      · subst none
        rfl
      · have long : ([[]] ++ place.reverse).length ≠ 1 := by simpa using none
        rw [if_neg long, absoluteText, if_neg (filled.mpr none)]
        rfl

theorem resolved_iff_some {place : List Str} (result : resolve [] (walk base path) = some place) :
    Resolved base path ↔ Writable base path := by
  have names : ∀ c, c ∈ place ↔ Left (walk base path) c := by
    intro c
    rw [mem_resolve result]
    simp
  have valid : ∀ c ∈ place.reverse, Component c :=
    fun c mem => component_of_left ((names c).mp (List.mem_reverse.mp mem))
  have plain : strayCheck (absoluteText place.reverse) = .ok (absoluteText place.reverse) ↔
      ∀ c, Left (walk base path) c → ¬ "..".toList <+: c := by
    rw [strayCheck_absoluteText valid]
    constructor
    · exact fun all c left => all c (List.mem_reverse.mpr ((names c).mpr left))
    · exact fun all c mem => all c ((names c).mp (List.mem_reverse.mp mem))
  rw [Resolved, strPathAbsolute_relative, result]
  dsimp only
  by_cases below : base.comps = [] ∧ place ≠ []
  · rw [if_pos below]
    obtain ⟨d, rest, split⟩ := List.exists_cons_of_ne_nil below.2
    have stray : "//".toList <:+: '/' :: absoluteText place.reverse := by
      rw [absoluteText_eq (not_congr List.reverse_eq_nil_iff |>.mpr below.2)]
      obtain ⟨e, others, written⟩ := List.exists_cons_of_ne_nil
        (not_congr List.reverse_eq_nil_iff |>.mpr below.2)
      rw [written]
      exact (List.prefix_append ['/', '/'] _).isInfix
    constructor
    · intro same
      rw [strayCheck, if_pos (Or.inr stray)] at same
      cases same
    · intro writable
      have left := (names d).mp (split ▸ List.mem_cons_self)
      exact absurd below.1 (writable d left).1
  · rw [if_neg below, plain]
    constructor
    · intro all c left
      have some' : place ≠ [] := List.ne_nil_of_mem ((names c).mpr left)
      exact ⟨fun root => below ⟨root, some'⟩, all c left⟩
    · exact fun writable c left => (writable c left).2

theorem resolved_iff (base : BasePath) (path : RelativePath) :
    Resolved base path ↔ Above 0 (walk base path) ∨ Writable base path := by
  cases result : resolve [] (walk base path) with
  | none =>
    have above : Above 0 (walk base path) := resolve_eq_none_iff.mp result
    have resolved : Resolved base path := by
      rw [Resolved, strPathAbsolute_relative, result]
      exact ⟨_, rfl⟩
    exact ⟨fun _ => Or.inl above, fun _ => resolved⟩
  | some place =>
    have inside : ¬ Above 0 (walk base path) := by
      intro above
      have none : resolve [] (walk base path) = none := resolve_eq_none_iff.mpr above
      rw [result] at none
      cases none
    rw [resolved_iff_some result]
    constructor
    · exact Or.inr
    · rintro (above | writable)
      · exact absurd above inside
      · exact writable

end Resolution

theorem strPathAbsolute_absolute (path : AbsolutePath) (base : Str) :
    strPathAbsolute path.text base = .ok path.text ↔ ∀ c ∈ path.comps, ¬ "..".toList <+: c := by
  have begins : strBeginsWith path.text ['/'] = true := absoluteText_begins path.comps
  rw [strPathAbsolute, if_pos begins]
  exact strayCheck_absoluteText path.valid

/-- A path is resolved exactly when it goes above the root, or nothing that is left begins with
two dots or stands below a base that is the root. An absolute path is returned exactly when none
of its components begins with two dots. -/
theorem strPathAbsolute_iff (base : BasePath) (path : RelativePath) (absolute : StraightPath)
    (any : Str) :
    (Resolved base path ↔ Above 0 (walk base path) ∨ Writable base path) ∧
    (strPathAbsolute absolute.text any = .ok absolute.text ↔
      ∀ c ∈ absolute.comps, ¬ "..".toList <+: c) :=
  ⟨resolved_iff base path, strPathAbsolute_absolute absolute.toAbsolutePath any⟩

/-- A name below the root, and names that begin with two dots. -/
theorem strPathAbsolute_fails :
    (¬ ∀ (base : BasePath) (path : RelativePath), Resolved base path) ∧
    ¬ ∀ (path : StraightPath) (base : Str), strPathAbsolute path.text base = .ok path.text := by
  constructor
  · intro all
    have root : strPathAbsolute ['a'] ['/'] = .ok "/a".toList :=
      all ⟨⟨[], by simp⟩, by simp⟩ ⟨[['a']], by simp, by decide, false⟩
    exact absurd root (by decide)
  · intro all
    have path := all ⟨⟨["..a".toList], by decide⟩, by decide⟩ ['/']
    exact absurd path (by decide)

end PathAbsolute
