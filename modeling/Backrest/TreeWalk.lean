import Mathlib.Data.List.Induction
import Backrest.FileTree

/-!
# Walking a tree that is being cleaned

A walk lists a directory, visits each name of the list and enters the directories
a visit says to enter. A visit may change the tree. When each visit either keeps
what stands there or removes it with everything below, by a judgement that does
not depend on what was done before, the walk leaves exactly what is kept on all
the way down, and has visited that.
-/

namespace TreeWalk

open FileTree

variable {ν γ μ ε : Type} [DecidableEq ν]

inductive Halt (ε : Type) where
  | fuel
  | error (e : ε)

/-- The names directly below a directory with what stands there. -/
def listing (order : List ν → List ν) (t : Tree ν γ) (path : List ν) : List (ν × Node γ) :=
  (order (t.children path)).filterMap fun name =>
    (t.node (path ++ [name])).map fun node => (name, node)

/-- A visit to a path, which says whether to enter it. -/
abbrev Visit (ν γ μ ε : Type) :=
  List ν → Node γ → Tree ν γ × μ → Except ε ((Tree ν γ × μ) × Bool)

/-- Visit one name of a list and what is below it. -/
def visitEntry (visit : Visit ν γ μ ε)
    (enter : List ν → Tree ν γ × μ → Except (Halt ε) (Tree ν γ × μ)) (path : List ν)
    (s : Tree ν γ × μ) (entry : ν × Node γ) : Except (Halt ε) (Tree ν γ × μ) :=
  match visit (path ++ [entry.1]) entry.2 s with
  | .error e => .error (.error e)
  | .ok (s, true) => enter (path ++ [entry.1]) s
  | .ok (s, false) => .ok s

def walk (order : List ν → List ν) (visit : Visit ν γ μ ε) :
    Nat → List ν → Tree ν γ × μ → Except (Halt ε) (Tree ν γ × μ)
  | 0, _, _ => .error .fuel
  | fuel + 1, path, s =>
    (listing order s.1 path).foldlM (visitEntry visit (walk order visit fuel) path) s

/-- Below the base only directories hold anything. -/
def Closed (base : List ν) (t : Tree ν γ) : Prop :=
  ∀ rest name, rest ≠ [] → (t.node (base ++ rest ++ [name])).isSome →
    t.node (base ++ rest) = some .dir

/-- No entry below the base is deeper than this. -/
def Depth (base : List ν) (t : Tree ν γ) (depth : Nat) : Prop :=
  ∀ rest, (t.node (base ++ rest)).isSome → rest.length < depth

theorem closed_of_entries {t : Tree ν γ}
    (parents : ∀ e ∈ t.entries, e.1.dropLast = [] ∨ t.node e.1.dropLast = some .dir) : Closed [] t := by
  intro q name nonempty isSome
  obtain ⟨e, mem, equal⟩ := lookup_isSome.mp isSome
  have parent := parents e mem
  rw [equal, List.nil_append, List.dropLast_concat] at parent
  exact parent.resolve_left nonempty

theorem exists_bound {α : Type} (size : α → Nat) (items : List α) :
    ∃ bound, ∀ item ∈ items, size item ≤ bound := by
  induction items with
  | nil => exact ⟨0, by simp⟩
  | cons item rest ih =>
    obtain ⟨bound, within⟩ := ih
    refine ⟨max (size item) bound, ?_⟩
    intro other mem
    rcases List.mem_cons.mp mem with rfl | mem
    · exact Nat.le_max_left _ _
    · exact Nat.le_trans (within other mem) (Nat.le_max_right _ _)

theorem exists_depth (base : List ν) (t : Tree ν γ) :
    ∃ depth, 0 < depth ∧ ∀ more, depth ≤ more → Depth base t more := by
  obtain ⟨bound, within⟩ := exists_bound (fun e => e.1.length) t.entries
  refine ⟨bound + 1, by omega, ?_⟩
  intro more le rest isSome
  obtain ⟨e, mem, equal⟩ := lookup_isSome.mp isSome
  have short := within e mem
  rw [equal, List.length_append] at short
  omega

/-- Every path from below the base down to this one is kept. -/
def Kept (keep : List ν → Node γ → Bool) (t : Tree ν γ) : List ν → List ν → Prop
  | _, [] => True
  | base, name :: rest =>
    (∃ node, t.node (base ++ [name]) = some node ∧ keep (base ++ [name]) node = true) ∧
      Kept keep t (base ++ [name]) rest

/-- Each visit to what may stand in the tree keeps it, and then acts, or removes it with
everything below. -/
structure Cleans (visit : Visit ν γ μ ε) (keep : List ν → Node γ → Bool)
    (act : List ν → Node γ → μ → μ) (I : μ → Prop) (P : List ν → Node γ → Prop) : Prop where
  kept : ∀ {path node t m}, I m → P path node → keep path node = true →
    ∃ enter, visit path node (t, m) = .ok ((t, act path node m), enter) ∧
      (enter = true ↔ node = .dir)
  removed : ∀ {path node t m}, I m → P path node →
    (node ≠ .dir → ∀ name rest, t.node (path ++ name :: rest) = none) → keep path node = false →
    ∃ t' enter, visit path node (t, m) = .ok ((t', m), enter) ∧
      ∀ q, t'.node q = if path <+: q then none else t.node q
  act_inv : ∀ {path node m}, I m → keep path node = true → I (act path node m)

section Spec
variable {order : List ν → List ν} {visit : Visit ν γ μ ε} {keep : List ν → Node γ → Bool}
  {act : List ν → Node γ → μ → μ} {I : μ → Prop} {P : List ν → Node γ → Prop}

variable {t t' : Tree ν γ} {path rest base : List ν} {m m' : μ} {name : ν} {node : Node γ}

theorem Closed.of_eq {base' : List ν} (closed : Closed base t) (below : base <+: base')
    (same : ∀ rest, t'.node (base' ++ rest) = t.node (base' ++ rest)) :
    Closed base' t' := by
  obtain ⟨middle, rfl⟩ := below
  intro rest name nonempty isSome
  rw [List.append_assoc (base ++ middle), same] at isSome
  rw [same]
  have parent := closed (middle ++ rest) name (by simp [nonempty])
  simp only [List.append_assoc] at parent isSome ⊢
  exact parent isSome

theorem Kept.congr (same : ∀ below, t'.node (base ++ below) = t.node (base ++ below)) :
    Kept keep t' base rest ↔ Kept keep t base rest := by
  induction rest generalizing base with
  | nil => exact Iff.rfl
  | cons name rest ih =>
    rw [Kept, Kept, same]
    apply and_congr_right
    intro _
    apply ih
    intro below
    rw [List.append_assoc]
    exact same _

theorem Kept.of_append {t : Tree ν γ} {base rest below : List ν}
    (kept : Kept keep t base (rest ++ below)) : Kept keep t base rest := by
  induction rest generalizing base with
  | nil => trivial
  | cons name rest ih => exact ⟨kept.1, ih kept.2⟩

theorem kept_iff :
    Kept keep t base rest ↔ ∀ k, 0 < k → k ≤ rest.length →
      ∃ node, t.node (base ++ rest.take k) = some node ∧ keep (base ++ rest.take k) node = true := by
  induction rest generalizing base with
  | nil =>
    simp only [Kept, List.length_nil, true_iff]
    intro k pos le
    omega
  | cons name rest ih =>
    rw [Kept, ih]
    constructor
    · rintro ⟨first, later⟩ k pos le
      obtain ⟨k, rfl⟩ : ∃ j, k = j + 1 := ⟨k - 1, by omega⟩
      by_cases top : k = 0
      · subst top
        simpa using first
      · have step := later k (by omega) (by simpa using le)
        simpa using step
    · intro all
      constructor
      · simpa using all 1 (by omega) (by simp)
      · intro k pos le
        have step := all (k + 1) (by omega) (by simpa using le)
        simpa using step

theorem mem_listing (permutes : ∀ names : List ν, (order names).Perm names) :
    (name, node) ∈ listing order t path ↔ t.node (path ++ [name]) = some node := by
  rw [listing, List.mem_filterMap]
  constructor
  · rintro ⟨other, -, found⟩
    obtain ⟨node', at_, same⟩ := Option.map_eq_some_iff.mp found
    cases same
    exact at_
  · intro at_
    refine ⟨name, (permutes _).mem_iff.mpr (mem_children.mpr (by rw [at_]; rfl)), ?_⟩
    rw [at_]
    rfl

theorem listing_nodup (permutes : ∀ names : List ν, (order names).Perm names) :
    ((listing order t path).map Prod.fst).Nodup := by
  have sub : (listing order t path).map Prod.fst = (order (t.children path)).filter
      fun name => (t.node (path ++ [name])).isSome := by
    unfold listing
    generalize order (t.children path) = names
    induction names with
    | nil => rfl
    | cons name names ih =>
      cases at_ : t.node (path ++ [name]) with
      | none => simp [at_, ih]
      | some node => simp [at_, ih]
  rw [sub]
  exact ((permutes _).nodup_iff.mpr children_nodup).filter _

/-- What a walk below `path` does: the state of the tree and what was kept, in order. -/
structure Walked (keep : List ν → Node γ → Bool) (act : List ν → Node γ → μ → μ) (I : μ → Prop)
    (path : List ν) (names : ν → Prop) (t t' : Tree ν γ) (m m' : μ) : Prop where
  outside : ∀ q, (∀ name, names name → ¬ (path ++ [name]) <+: q) → t'.node q = t.node q
  inside : ∀ name rest, names name →
    (Kept keep t path (name :: rest) → t'.node (path ++ name :: rest) = t.node (path ++ name :: rest)) ∧
    (¬ Kept keep t path (name :: rest) → t'.node (path ++ name :: rest) = none)
  acts : ∃ visited : List (List ν × Node γ), m' = visited.foldl (fun m e => act e.1 e.2 m) m ∧
    ∀ p node, (p, node) ∈ visited ↔ ∃ name rest, names name ∧ p = path ++ name :: rest ∧
      t.node p = some node ∧ Kept keep t path (name :: rest)
  inv : I m'

theorem Walked.nothing (holds : I m) :
    Walked keep act I path (fun _ => False) t t m m where
  outside _ _ := rfl
  inside _ _ absurd := absurd.elim
  acts := ⟨[], rfl, by simp⟩
  inv := holds

theorem Walked.below {names : ν → Prop} (walked : Walked keep act I path names t t' m m')
    (other : ¬ names name) (rest : List ν) :
    t'.node (path ++ [name] ++ rest) = t.node (path ++ [name] ++ rest) := by
  apply walked.outside
  intro name' mem isPrefix
  have same : (path ++ [name']) = (path ++ [name]) := by
    have first : path ++ [name'] <+: path ++ [name] :=
      List.prefix_of_prefix_length_le isPrefix (List.prefix_append _ _) (by simp)
    exact first.eq_of_length (by simp)
  obtain rfl : name' = name := by simpa using same
  exact other mem

theorem kept_cons_congr
    (same : ∀ below, t'.node (path ++ [name] ++ below) = t.node (path ++ [name] ++ below)) :
    Kept keep t' path (name :: rest) ↔ Kept keep t path (name :: rest) := by
  have here := same []
  rw [List.append_nil] at here
  rw [Kept, Kept, here]
  exact and_congr_right (fun _ => Kept.congr same)

/-- First some names, then others. -/
theorem Walked.trans {first later : ν → Prop} {t'' : Tree ν γ} {m'' : μ}
    (one : Walked keep act I path first t t' m m')
    (two : Walked keep act I path later t' t'' m' m'') (apart : ∀ name, first name → ¬ later name) :
    Walked keep act I path (fun name => first name ∨ later name) t t'' m m'' := by
  have keptLater : ∀ {name rest}, later name →
      (Kept keep t' path (name :: rest) ↔ Kept keep t path (name :: rest)) := fun {name _} mem =>
    kept_cons_congr (one.below (fun isFirst => apart name isFirst mem))
  have nodeLater : ∀ {name} rest, later name →
      t'.node (path ++ name :: rest) = t.node (path ++ name :: rest) := by
    intro name rest mem
    have below := one.below (fun isFirst => apart name isFirst mem) rest
    rwa [List.append_assoc, List.singleton_append] at below
  have nodeFirst : ∀ {name} rest, first name →
      t''.node (path ++ name :: rest) = t'.node (path ++ name :: rest) := by
    intro name rest mem
    have below := two.below (apart name mem) rest
    rwa [List.append_assoc, List.singleton_append] at below
  constructor
  case outside =>
    intro q notBelow
    rw [two.outside q (fun name mem => notBelow name (.inr mem)),
      one.outside q (fun name mem => notBelow name (.inl mem))]
  case inside =>
    rintro name rest (mem | mem)
    · rw [nodeFirst rest mem]
      exact one.inside name rest mem
    · rw [← keptLater mem, ← nodeLater rest mem]
      exact two.inside name rest mem
  case acts =>
    obtain ⟨before, acted, memBefore⟩ := one.acts
    obtain ⟨after, acted', memAfter⟩ := two.acts
    refine ⟨before ++ after, by rw [List.foldl_append, ← acted, acted'], ?_⟩
    intro p node
    rw [List.mem_append, memBefore, memAfter]
    constructor
    · rintro (⟨name, rest, mem, rfl, at_, kept⟩ | ⟨name, rest, mem, rfl, at_, kept⟩)
      · exact ⟨name, rest, .inl mem, rfl, at_, kept⟩
      · rw [nodeLater rest mem] at at_
        exact ⟨name, rest, .inr mem, rfl, at_, (keptLater mem).mp kept⟩
    · rintro ⟨name, rest, mem | mem, rfl, at_, kept⟩
      · exact .inl ⟨name, rest, mem, rfl, at_, kept⟩
      · rw [← nodeLater rest mem] at at_
        exact .inr ⟨name, rest, mem, rfl, at_, (keptLater mem).mpr kept⟩
  case inv => exact two.inv

/-- Whatever stands above something is a directory. -/
theorem Closed.above {base rest below : List ν} {t : Tree ν γ} (closed : Closed base t)
    (nonempty : rest ≠ []) (nonempty' : below ≠ [])
    (there : (t.node (base ++ rest ++ below)).isSome) : t.node (base ++ rest) = some .dir := by
  induction below using List.reverseRecOn with
  | nil => exact absurd rfl nonempty'
  | append_singleton below last ih =>
    have parent := closed (rest ++ below) last (by simp [nonempty]) (by simpa using there)
    by_cases first : below = []
    · simpa [first] using parent
    · apply ih first
      rw [List.append_assoc, parent]
      rfl

/-- Nothing stands below a name that is not a directory. -/
theorem Closed.absent {path : List ν} {t : Tree ν γ} (closed : Closed path t) {name : ν}
    (notDir : t.node (path ++ [name]) ≠ some .dir) (below : ν) (rest : List ν) :
    t.node (path ++ [name] ++ below :: rest) = none := by
  by_contra present
  exact notDir (closed.above (List.cons_ne_nil _ _) (List.cons_ne_nil _ _)
    (Option.isSome_iff_ne_none.mpr present))

theorem Walked.up (at_ : t.node (path ++ [name]) = some node)
    (kept : keep (path ++ [name]) node = true)
    (walked : Walked keep act I (path ++ [name])
      (fun below => (t.node (path ++ [name] ++ [below])).isSome) t t' (act (path ++ [name]) node m) m')
    (closed : Closed path t) :
    Walked keep act I path (· = name) t t' m m' := by
  have keptHere : ∀ rest, Kept keep t path (name :: rest) ↔ Kept keep t (path ++ [name]) rest := by
    intro rest
    rw [Kept]
    exact and_iff_right ⟨node, at_, kept⟩
  -- nothing stands below a name that is not there
  have absent : ∀ below rest, ¬ (t.node (path ++ [name] ++ [below])).isSome →
      t.node (path ++ [name] ++ below :: rest) = none := by
    intro below rest missing
    cases rest with
    | nil => simpa using missing
    | cons next rest =>
      have closedBelow : Closed (path ++ [name]) t :=
        closed.of_eq (List.prefix_append _ _) (fun _ => rfl)
      have gone := @Closed.absent _ _ _ _ t closedBelow below (by
        intro isDir
        rw [isDir] at missing
        exact missing rfl) next rest
      simpa using gone
  constructor
  case outside =>
    intro q notBelow
    apply walked.outside
    intro below _ isPrefix
    exact notBelow name rfl ((List.prefix_append _ _).trans isPrefix)
  case inside =>
    intro name' rest same
    subst same
    have split : path ++ name' :: rest = path ++ [name'] ++ rest := by simp
    rw [keptHere, split]
    cases rest with
    | nil =>
      have same : t'.node (path ++ [name']) = t.node (path ++ [name']) := walked.outside _ (by
        intro below _ isPrefix
        have long := isPrefix.length_le
        simp at long)
      rw [List.append_nil]
      exact ⟨fun _ => same, fun notKept => absurd trivial notKept⟩
    | cons below rest =>
      by_cases there : (t.node (path ++ [name'] ++ [below])).isSome
      · exact walked.inside below rest there
      · have gone := absent below rest there
        have same : t'.node (path ++ [name'] ++ below :: rest) =
            t.node (path ++ [name'] ++ below :: rest) := by
          apply walked.outside
          intro other isThere isPrefix
          have first : path ++ [name'] ++ [other] <+: path ++ [name'] ++ [below] :=
            List.prefix_of_prefix_length_le isPrefix ⟨rest, by simp⟩ (by simp)
          rw [first.eq_of_length (by simp)] at isThere
          exact there isThere
        exact ⟨fun _ => same, fun _ => same.trans gone⟩
  case acts =>
    obtain ⟨visited, acted, mem⟩ := walked.acts
    refine ⟨(path ++ [name], node) :: visited, acted, ?_⟩
    intro p node'
    rw [List.mem_cons, mem]
    constructor
    · rintro (same | ⟨below, rest, -, rfl, at', keptBelow⟩)
      · cases same
        exact ⟨name, [], rfl, rfl, at_, (keptHere []).mpr trivial⟩
      · exact ⟨name, below :: rest, rfl, by simp, at', (keptHere _).mpr keptBelow⟩
    · rintro ⟨_, rest, rfl, rfl, at', keptRest⟩
      cases rest with
      | nil =>
        left
        rw [at_] at at'
        cases at'
        rfl
      | cons below rest =>
        refine .inr ⟨below, rest, ?_, by simp, at', (keptHere _).mp keptRest⟩
        by_contra missing
        have gone := absent below rest missing
        rw [List.append_assoc, List.singleton_append] at gone
        rw [gone] at at'
        exact absurd at' (by simp)
  case inv => exact walked.inv

theorem Walked.gone (at_ : t.node (path ++ [name]) = some node)
    (notKept : keep (path ++ [name]) node = false)
    (nodes : ∀ q, t'.node q = if path ++ [name] <+: q then none else t.node q) (holds : I m) :
    Walked keep act I path (· = name) t t' m m := by
  have never : ∀ rest, ¬ Kept keep t path (name :: rest) := by
    rintro rest ⟨⟨node', at', kept⟩, -⟩
    rw [at_] at at'
    cases at'
    rw [notKept] at kept
    exact absurd kept (by decide)
  constructor
  case outside =>
    intro q notBelow
    rw [nodes, if_neg (notBelow name rfl)]
  case inside =>
    intro name' rest same
    subst same
    refine ⟨fun kept => absurd kept (never rest), fun _ => ?_⟩
    rw [nodes, if_pos ⟨rest, by simp⟩]
  case acts =>
    refine ⟨[], rfl, ?_⟩
    intro p node'
    simp only [List.not_mem_nil, false_iff]
    rintro ⟨name', rest, same, -, -, kept⟩
    subst same
    exact never rest kept
  case inv => exact holds

theorem walk_removed (permutes : ∀ names : List ν, (order names).Perm names) {fuel : Nat}
    (pos : 0 < fuel) (gone : ∀ name, t.node (path ++ [name]) = none) :
    walk order visit fuel path (t, m) = .ok (t, m) := by
  obtain ⟨fuel, rfl⟩ : ∃ f, fuel = f + 1 := ⟨fuel - 1, by omega⟩
  have empty : listing order t path = [] := by
    rw [List.eq_nil_iff_forall_not_mem]
    rintro ⟨name, node⟩ mem
    rw [mem_listing permutes, gone] at mem
    exact absurd mem (by simp)
  rw [walk]
  simp only [empty]
  rfl

theorem fold_spec (permutes : ∀ names : List ν, (order names).Perm names)
    (cleans : Cleans visit keep act I P) {fuel : Nat}
    (ih : ∀ (path : List ν) (t : Tree ν γ) (m : μ), 0 < fuel → Depth path t fuel →
      Closed path t → (∀ q node, t.node q = some node → P q node) → I m → ∃ t' m', walk order visit fuel path (t, m) = .ok (t', m') ∧
        Walked keep act I path (fun name => (t.node (path ++ [name])).isSome) t t' m m') :
    ∀ (entries : List (ν × Node γ)) (t : Tree ν γ) (m : μ), (entries.map Prod.fst).Nodup →
      (∀ entry ∈ entries, t.node (path ++ [entry.1]) = some entry.2) →
      Depth path t (fuel + 1) → Closed path t → (∀ q node, t.node q = some node → P q node) →
      I m →
      ∃ t' m', entries.foldlM (visitEntry visit (walk order visit fuel) path) (t, m) =
          .ok (t', m') ∧
        Walked keep act I path (fun name => name ∈ entries.map Prod.fst) t t' m m' := by
  intro entries
  induction entries with
  | nil =>
    intro t m _ _ _ _ _ holds
    refine ⟨t, m, rfl, ?_⟩
    simpa using Walked.nothing holds
  | cons entry rest ihRest =>
    obtain ⟨name, node⟩ := entry
    intro t m nodup present depth closed possible holds
    obtain ⟨notIn, nodup⟩ := List.nodup_cons.mp nodup
    have at_ : t.node (path ++ [name]) = some node := present _ List.mem_cons_self
    have depthBelow : Depth (path ++ [name]) t fuel := by
      intro below isSome
      have long := depth (name :: below) (by simpa using isSome)
      simpa using long
    have pos : 0 < fuel := by
      have long := depthBelow [] (by simp [at_])
      simpa using long
    have closedBelow : Closed (path ++ [name]) t :=
      closed.of_eq (List.prefix_append _ _) (fun _ => rfl)
    -- the first name alone
    have one : ∃ t' m',
        visitEntry visit (walk order visit fuel) path (t, m) (name, node) = .ok (t', m') ∧
        Walked keep act I path (· = name) t t' m m' := by
      unfold visitEntry
      cases judged : keep (path ++ [name]) node with
      | true =>
        obtain ⟨enter, visited, enters⟩ := cleans.kept holds (possible _ _ at_) judged
        have holds' := cleans.act_inv holds judged
        rw [visited]
        cases enter with
        | true =>
          obtain ⟨t', m', walked, spec⟩ := ih (path ++ [name]) t (act (path ++ [name]) node m) pos
            depthBelow closedBelow possible holds'
          exact ⟨t', m', walked, spec.up at_ judged closed⟩
        | false =>
          refine ⟨t, act (path ++ [name]) node m, rfl, ?_⟩
          refine Walked.up at_ judged ?_ closed
          -- only a directory has something below it
          have none : (fun below => ((t.node (path ++ [name] ++ [below])).isSome : Prop)) =
              fun _ => False := by
            funext below
            simp only [eq_iff_iff, iff_false]
            intro isSome
            have parent := closed [name] below (List.cons_ne_nil _ _) isSome
            rw [at_] at parent
            exact absurd (enters.mpr (Option.some.inj parent)) (by decide)
          rw [none]
          exact Walked.nothing holds'
      | false =>
        have onlyDirs : node ≠ .dir → ∀ below rest, t.node (path ++ [name] ++ below :: rest) = none :=
          fun notDir => closed.absent (fun isDir => notDir (Option.some.inj (at_.symm.trans isDir)))
        obtain ⟨t', enter, visited, nodes⟩ := cleans.removed holds (possible _ _ at_) onlyDirs judged
        rw [visited]
        refine ⟨t', m, ?_, Walked.gone at_ judged nodes holds⟩
        cases enter with
        | true =>
          refine walk_removed permutes pos (fun below => ?_)
          rw [nodes, if_pos (List.prefix_append _ _)]
        | false => rfl
    obtain ⟨t', m', first, walked⟩ := one
    have same : ∀ other, other ≠ name → ∀ below,
        t'.node (path ++ [other] ++ below) = t.node (path ++ [other] ++ below) :=
      fun other differ below => walked.below (fun equal => differ equal) below
    have smaller : ∀ q node, t'.node q = some node → t.node q = some node := by
      intro q node isSome
      by_cases below : path ++ [name] <+: q
      · obtain ⟨tail, rfl⟩ := below
        rw [List.append_assoc, List.singleton_append] at isSome ⊢
        by_cases kept : Kept keep t path (name :: tail)
        · rwa [(walked.inside name tail rfl).1 kept] at isSome
        · rw [(walked.inside name tail rfl).2 kept] at isSome
          exact absurd isSome (by simp)
      · rwa [walked.outside q (fun _ equal => equal ▸ below)] at isSome
    have there : ∀ q, (t'.node q).isSome → (t.node q).isSome := by
      intro q isSome
      obtain ⟨node, at'⟩ := Option.isSome_iff_exists.mp isSome
      rw [smaller q node at']
      rfl
    have closed' : Closed path t' := by
      intro deep last nonempty isSome
      have parent := closed deep last nonempty (there _ isSome)
      obtain ⟨top, deep, rfl⟩ := List.exists_cons_of_ne_nil nonempty
      by_cases here : top = name
      · subst here
        have kept : Kept keep t path (top :: (deep ++ [last])) := by
          by_contra notKept
          have gone := (walked.inside top (deep ++ [last]) rfl).2 notKept
          have isSome' : (t'.node (path ++ top :: (deep ++ [last]))).isSome := by simpa using isSome
          rw [gone] at isSome'
          exact absurd isSome' (by simp)
        rw [(walked.inside top deep rfl).1 (@Kept.of_append _ _ _ _ t path (top :: deep) [last] kept), parent]
      · have below := same top here deep
        simp only [List.append_assoc, List.singleton_append] at below
        rw [below, parent]
    obtain ⟨t'', m'', later, walkedRest⟩ := ihRest t' m' nodup
      (fun entry mem => by
        have differ : entry.1 ≠ name := by
          intro equal
          have inNames : entry.1 ∈ rest.map Prod.fst := List.mem_map_of_mem mem
          exact notIn (equal ▸ inNames)
        have below := same entry.1 differ []
        rw [List.append_nil] at below
        rw [below]
        exact present entry (List.mem_cons_of_mem _ mem))
      (fun below isSome => depth below (there _ isSome)) closed'
      (fun q node at' => possible q node (smaller q node at')) walked.inv
    refine ⟨t'', m'', ?_, ?_⟩
    · rw [List.foldlM_cons, first]
      exact later
    · have both := walked.trans walkedRest (by
        rintro other rfl mem
        exact notIn mem)
      have names : (fun other => other = name ∨ other ∈ rest.map Prod.fst) =
          fun other => other ∈ ((name, node) :: rest).map Prod.fst := by
        funext other
        simp
      rwa [names] at both

/-- A walk with enough fuel for the depth ends and leaves what is kept. -/
theorem walk_spec (permutes : ∀ names : List ν, (order names).Perm names)
    (cleans : Cleans visit keep act I P) (fuel : Nat) :
    ∀ (path : List ν) (t : Tree ν γ) (m : μ), 0 < fuel → Depth path t fuel →
      Closed path t → (∀ q node, t.node q = some node → P q node) → I m →
      ∃ t' m', walk order visit fuel path (t, m) = .ok (t', m') ∧
        Walked keep act I path (fun name => (t.node (path ++ [name])).isSome) t t' m m' := by
  induction fuel with
  | zero =>
    intro path t m pos
    exact absurd pos (Nat.lt_irrefl 0)
  | succ fuel ih =>
    intro path t m _ depth closed possible holds
    obtain ⟨t', m', folded, walked⟩ := fold_spec permutes cleans ih (listing order t path) t m
      (listing_nodup permutes) (fun entry mem => (mem_listing permutes).mp mem) depth closed
      possible holds
    refine ⟨t', m', folded, ?_⟩
    have names : (fun name => name ∈ (listing order t path).map Prod.fst) =
        fun name => ((t.node (path ++ [name])).isSome : Prop) := by
      funext name
      simp only [List.mem_map, Prod.exists, exists_and_right, exists_eq_right,
        mem_listing permutes, Option.isSome_iff_exists]
    rwa [names] at walked

/-- Nothing stands below a path that is not there. -/
theorem Closed.none_below {base : List ν} {t : Tree ν γ} (closed : Closed base t) {rest below : List ν}
    (nonempty : rest ≠ []) (missing : t.node (base ++ rest) = none) :
    t.node (base ++ rest ++ below) = none := by
  by_cases here : below = []
  · simpa [here] using missing
  · by_contra present
    have dir := closed.above nonempty here (Option.isSome_iff_ne_none.mpr present)
    rw [missing] at dir
    exact absurd dir (by simp)

/-- What is left of a whole directory was there and is kept on all the way down. -/
theorem Walked.left_iff (closed : Closed path t)
    (walked : Walked keep act I path (fun name => (t.node (path ++ [name])).isSome) t t' m m')
    (nonempty : rest ≠ []) :
    t'.node (path ++ rest) = some node ↔ t.node (path ++ rest) = some node ∧ Kept keep t path rest := by
  obtain ⟨name, rest, rfl⟩ := List.exists_cons_of_ne_nil nonempty
  by_cases present : (t.node (path ++ [name])).isSome
  · by_cases kept : Kept keep t path (name :: rest)
    · rw [(walked.inside name rest present).1 kept]
      simp only [kept, and_true]
    · rw [(walked.inside name rest present).2 kept]
      simp [kept]
  · have missing : t.node (path ++ name :: rest) = none := by
      have none : t.node (path ++ [name]) = none := by simpa using present
      have below := @Closed.none_below _ _ _ _ t closed [name] rest (List.cons_ne_nil _ _) none
      simpa using below
    have same : t'.node (path ++ name :: rest) = t.node (path ++ name :: rest) := by
      apply walked.outside
      intro other isThere isPrefix
      have tops := (List.prefix_append_right_inj _).mp isPrefix
      have first : other = name := (List.cons_prefix_cons.mp tops).1
      exact present (first ▸ isThere)
    rw [same, missing]
    simp

theorem Walked.apart {q : List ν} {names : ν → Prop}
    (walked : Walked keep act I path names t t' m m') (apart : ∀ rest, rest ≠ [] → q ≠ path ++ rest) :
    t'.node q = t.node q := by
  apply walked.outside
  rintro name - ⟨rest, equal⟩
  apply apart (name :: rest) (List.cons_ne_nil _ _)
  rw [← equal, List.append_assoc, List.singleton_append]

end Spec

end TreeWalk
