import Backrest.ConfigParse

/-!
# The index of each key

While the options are scanned, the total of a group is the number of keys in its map. The
keys are written in ascending order from the first index on. In the pg group key 1 is at the
first index even when no option has it, and is then not part of the total. The value of an
option is read at the key of the index it is stored at.
-/

namespace ConfigParse

open Text Effects ExecParam

section Scan

variable {ι : Type} {rules : ParseRules ι} {parse : ι → ParseOption}

def FoundAt (parse : ι → ParseOption) (o : ι) (k : Nat) (value : ParseOptionValue) : Prop :=
  (parse o).indexList[k]? = some value ∧ value.found = true ∧ value.reset = false

def Used (rules : ParseRules ι) (parse : ι → ParseOption) (group : ConfigOptionGroup) (k : Nat) :
    Prop :=
  ∃ o, rules.valid o = true ∧ rules.group o = some group ∧ ∃ value, FoundAt parse o k value

variable {o : ι} {options : List ι} {scan : GroupScan}

theorem FoundAt.short {k : Nat} {value : ParseOptionValue} (found : FoundAt parse o k value) :
    k < CFG_OPTION_KEY_MAX := by
  obtain ⟨inside, -⟩ := List.getElem?_eq_some_iff.mp found.1
  exact inside.trans_le (parse o).short

/-- The map tells which keys are used, and the total how many. -/
structure Counted (P : Nat → Prop) (scan : GroupScan) : Prop where
  map : ∀ k, scan.groupIdxMap k = true ↔ P k
  total : scan.indexTotal = ((List.range CFG_OPTION_KEY_MAX).filter scan.groupIdxMap).length

theorem length_filter_update {used : Nat → Bool} {k n : Nat} (inside : k < n)
    (new : used k = false) :
    ((List.range n).filter (Function.update used k true)).length =
      ((List.range n).filter used).length + 1 := by
  induction n with
  | zero => omega
  | succ n ih =>
    rw [List.range_succ, List.filter_append, List.filter_append, List.length_append,
      List.length_append, List.filter_singleton, List.filter_singleton]
    by_cases last : k = n
    · subst last
      have before : (List.range k).filter (Function.update used k true) =
          (List.range k).filter used := by
        refine List.filter_congr fun j mem => ?_
        rw [Function.update_of_ne (by have := List.mem_range.mp mem; omega)]
      rw [before, Function.update_self, new]
      rfl
    · rw [ih (by omega), Function.update_of_ne (by omega)]
      omega

theorem scanValue_counted {P : Nat → Prop} {scan : GroupScan} {value : ParseOptionValue} {k : Nat}
    (counted : Counted P scan) (inside : k < CFG_OPTION_KEY_MAX) :
    Counted (fun j => P j ∨ j = k ∧ value.found = true ∧ value.reset = false)
      (scanValue scan (value, k)) := by
  rw [scanValue]
  by_cases found : value.found = true ∧ value.reset = false
  · rw [if_pos (by simp [found])]
    by_cases used : scan.groupIdxMap k = true
    · rw [if_neg (by simp [used])]
      refine ⟨fun j => ?_, counted.total⟩
      rw [counted.map]
      constructor
      · exact Or.inl
      · rintro (before | ⟨rfl, -⟩)
        · exact before
        · exact (counted.map j).mp used
    · have new : scan.groupIdxMap k = false := Bool.eq_false_iff.mpr used
      rw [if_pos (by simp [new])]
      constructor
      · intro j
        by_cases same : j = k
        · subst same
          simp [found]
        · show Function.update scan.groupIdxMap k true j = true ↔ _
          rw [Function.update_of_ne same, counted.map]
          simp [same]
      · exact (congrArg (· + 1) counted.total).trans (length_filter_update inside new).symm
  · rw [if_neg (by simpa using found)]
    refine ⟨fun j => ?_, counted.total⟩
    rw [counted.map]
    constructor
    · exact Or.inl
    · rintro (before | ⟨-, both⟩)
      · exact before
      · exact absurd both found

theorem scanValue_foldl {P : Nat → Prop} {pairs : List (ParseOptionValue × Nat)}
    (counted : Counted P scan) (inside : ∀ pair ∈ pairs, pair.2 < CFG_OPTION_KEY_MAX) :
    Counted (fun j => P j ∨ ∃ value, (value, j) ∈ pairs ∧ value.found = true ∧ value.reset = false)
      (pairs.foldl scanValue scan) := by
  induction pairs generalizing P scan with
  | nil => exact ⟨fun j => by simp [counted.map], counted.total⟩
  | cons pair pairs ih =>
    obtain ⟨value, k⟩ := pair
    have step := @scanValue_counted _ _ value _ counted (inside _ List.mem_cons_self)
    have rest := ih step fun p mem => inside p (List.mem_cons_of_mem _ mem)
    refine ⟨fun j => ?_, rest.total⟩
    rw [List.foldl_cons, rest.map]
    constructor
    · rintro ((before | ⟨rfl, found⟩) | ⟨v, mem, found⟩)
      · exact Or.inl before
      · exact Or.inr ⟨value, List.mem_cons_self, found⟩
      · exact Or.inr ⟨v, List.mem_cons_of_mem _ mem, found⟩
    · rintro (before | ⟨v, mem, found⟩)
      · exact Or.inl (Or.inl before)
      · rcases List.mem_cons.mp mem with same | mem
        · obtain ⟨rfl, rfl⟩ := Prod.mk.inj same
          exact Or.inl (Or.inr ⟨rfl, found⟩)
        · exact Or.inr ⟨v, mem, found⟩

theorem scanValue_valid (pairs : List (ParseOptionValue × Nat)) (scan : GroupScan) :
    (pairs.foldl scanValue scan).valid = scan.valid := by
  induction pairs generalizing scan with
  | nil => rfl
  | cons pair pairs ih =>
    rw [List.foldl_cons, ih, scanValue]
    split
    · split <;> rfl
    · rfl

theorem scanValue_indexList {P : Nat → Prop} {scan : GroupScan} (o : ι) (counted : Counted P scan) :
    Counted (fun k => P k ∨ ∃ value, FoundAt parse o k value)
      ((parse o).indexList.zipIdx.foldl scanValue scan) := by
  have inside : ∀ pair ∈ (parse o).indexList.zipIdx, pair.2 < CFG_OPTION_KEY_MAX := by
    intro pair mem
    have short := (List.mem_zipIdx mem).2.1
    have most := (parse o).short
    omega
  have all := scanValue_foldl counted inside
  refine ⟨fun k => ?_, all.total⟩
  rw [all.map]
  simp only [List.mk_mem_zipIdx_iff_getElem?, FoundAt]

structure ScannedTo (rules : ParseRules ι) (parse : ι → ParseOption) (options : List ι)
    (group : ConfigOptionGroup) (scan : GroupScan) : Prop where
  valid : scan.valid = true ↔
    ∃ o ∈ options, rules.valid o = true ∧ rules.group o = some group
  counted : Counted (fun k => ∃ o ∈ options, (rules.valid o = true ∧ rules.group o = some group) ∧
    ∃ value, FoundAt parse o k value) scan

theorem ScannedTo.other {group : ConfigOptionGroup}
    (scanned : ScannedTo rules parse options group scan)
    (other : ¬ (rules.valid o = true ∧ rules.group o = some group)) :
    ScannedTo rules parse (options ++ [o]) group scan := by
  have one : ∀ Q : ι → Prop, (∃ p ∈ options ++ [o], (rules.valid p = true ∧
      rules.group p = some group) ∧ Q p) ↔
      ∃ p ∈ options, (rules.valid p = true ∧ rules.group p = some group) ∧ Q p := by
    intro Q
    constructor
    · rintro ⟨p, mem, own, holds⟩
      rcases List.mem_append.mp mem with mem | last
      · exact ⟨p, mem, own, holds⟩
      · rw [List.mem_singleton.mp last] at own
        exact absurd own other
    · rintro ⟨p, mem, own, holds⟩
      exact ⟨p, List.mem_append_left _ mem, own, holds⟩
  refine ⟨?_, fun k => ?_, scanned.counted.total⟩
  · rw [scanned.valid]
    simpa using (one fun _ => True).symm
  · rw [scanned.counted.map, one]

theorem ScannedTo.own {group : ConfigOptionGroup}
    (scanned : ScannedTo rules parse options group scan)
    (own : rules.valid o = true ∧ rules.group o = some group) :
    ScannedTo rules parse (options ++ [o]) group
      ((parse o).indexList.zipIdx.foldl scanValue { scan with valid := true }) := by
  have counted : Counted _ { scan with valid := true } :=
    ⟨scanned.counted.map, scanned.counted.total⟩
  have step := @scanValue_indexList _ parse _ _ o counted
  refine ⟨?_, fun k => ?_, step.total⟩
  · rw [scanValue_valid]
    simp only [true_iff]
    exact ⟨o, List.mem_append_right _ (List.mem_singleton_self o), own⟩
  · rw [step.map]
    constructor
    · rintro (⟨p, mem, ofGroup, found⟩ | found)
      · exact ⟨p, List.mem_append_left _ mem, ofGroup, found⟩
      · exact ⟨o, List.mem_append_right _ (List.mem_singleton_self o), own, found⟩
    · rintro ⟨p, mem, ofGroup, found⟩
      rcases List.mem_append.mp mem with mem | last
      · exact Or.inl ⟨p, mem, ofGroup, found⟩
      · rw [List.mem_singleton.mp last] at found
        exact Or.inr found

theorem scanOption_scanned {scan scan' : ConfigOptionGroup → GroupScan}
    (scanned : ∀ group, ScannedTo rules parse options group (scan group))
    (step : scanOption rules parse scan o = .ok scan') :
    ∀ group, ScannedTo rules parse (options ++ [o]) group (scan' group) := by
  intro group
  rw [scanOption] at step
  by_cases valid : rules.valid o = true
  · rw [if_neg (by simp [valid])] at step
    cases grouped : rules.group o with
    | none =>
      rw [grouped] at step
      cases step
      exact (scanned group).other (by simp [grouped])
    | some own =>
      rw [grouped] at step
      cases step
      by_cases same : group = own
      · subst same
        rw [Function.update_self]
        exact (scanned group).own ⟨valid, grouped⟩
      · rw [Function.update_of_ne same]
        exact (scanned group).other (by simp [grouped, Ne.symm same])
  · rw [if_pos (by simp [valid])] at step
    split at step
    · cases step
    · cases step
      exact (scanned group).other fun own => valid own.1

theorem scanOption_foldlM {rest : List ι} {scan scan' : ConfigOptionGroup → GroupScan}
    (scanned : ∀ group, ScannedTo rules parse options group (scan group))
    (run : rest.foldlM (scanOption rules parse) scan = .ok scan') :
    ∀ group, ScannedTo rules parse (options ++ rest) group (scan' group) := by
  induction rest generalizing options scan with
  | nil =>
    cases run
    simpa using scanned
  | cons o rest ih =>
    rw [List.foldlM_cons] at run
    obtain ⟨next, step, run⟩ := except_bind_ok run
    have all := ih (scanOption_scanned scanned step) run
    simpa using all

theorem scanned_nil (group : ConfigOptionGroup) : ScannedTo rules parse [] group {} := by
  refine ⟨by simp, by simp, ?_⟩
  rw [List.filter_false]
  rfl

end Scan

/-! ## The index map -/

section Write

variable {scan : GroupScan}

theorem writeIndex_foldl (used : Nat → Bool) (keys : List Nat) (indexMap : List Nat) (idx : Nat)
    (room : idx + (keys.filter used).length ≤ indexMap.length) :
    (keys.foldl (writeIndex used) (indexMap, idx)).1 =
      indexMap.take idx ++ keys.filter used ++ indexMap.drop (idx + (keys.filter used).length) := by
  induction keys generalizing indexMap idx with
  | nil => simp
  | cons k keys ih =>
    rw [List.foldl_cons, writeIndex]
    by_cases isUsed : used k = true
    · rw [List.filter_cons_of_pos isUsed, List.length_cons] at room
      rw [if_pos isUsed, List.filter_cons_of_pos isUsed, List.length_cons,
        ih _ _ (by simp only [List.length_set]; omega)]
      have front : (indexMap.set idx k).take (idx + 1) = indexMap.take idx ++ [k] := by
        rw [List.set_eq_take_append_cons_drop, if_pos (by omega), List.take_append,
          List.take_take, List.length_take]
        have one : idx + 1 - min idx indexMap.length = 1 := by omega
        rw [one, Nat.min_eq_right (by omega)]
        rfl
      have back : (indexMap.set idx k).drop (idx + 1 + (keys.filter used).length) =
          indexMap.drop (idx + ((keys.filter used).length + 1)) := by
        rw [List.drop_set_of_lt (by omega)]
        congr 1
        omega
      rw [front, back]
      simp
    · rw [List.filter_cons_of_neg isUsed] at room
      rw [if_neg isUsed, List.filter_cons_of_neg isUsed, ih _ _ room]

def usedKeys (scan : GroupScan) : List Nat :=
  (List.range CFG_OPTION_KEY_MAX).filter scan.groupIdxMap

theorem usedKeys_sorted : (usedKeys scan).Pairwise (· < ·) :=
  List.pairwise_lt_range.filter _

theorem length_usedKeys : (usedKeys scan).length ≤ CFG_OPTION_KEY_MAX :=
  (List.length_filter_le _ _).trans_eq List.length_range

theorem range_key_max : List.range CFG_OPTION_KEY_MAX = 0 :: List.range' 1 (CFG_OPTION_KEY_MAX - 1) := by
  rw [List.range_eq_range', show CFG_OPTION_KEY_MAX = CFG_OPTION_KEY_MAX - 1 + 1 by decide,
    List.range'_succ]
  rfl

theorem writeGroup_unused (group : ConfigOptionGroup) (valid : scan.valid = true)
    (none : scan.indexTotal = 0) : (writeGroup group scan).keys = [0] := by
  rw [writeGroup, if_neg (by simp [valid]), if_pos none]
  rfl

theorem writeGroup_used {group : ConfigOptionGroup} (valid : scan.valid = true)
    (total : scan.indexTotal = (usedKeys scan).length) (some : scan.indexTotal ≠ 0)
    (first : group = .pg → scan.groupIdxMap 0 = true) :
    (writeGroup group scan).keys = usedKeys scan := by
  have most := @length_usedKeys scan
  rw [writeGroup, if_neg (by simp [valid]), if_neg some, OptionGroup.keys]
  by_cases pg : group = .pg
  · have keys : usedKeys scan = 0 :: (List.range' 1 (CFG_OPTION_KEY_MAX - 1)).filter
        scan.groupIdxMap := by
      rw [usedKeys, range_key_max, List.filter_cons_of_pos (first pg)]
    have size : (usedKeys scan).length = ((List.range' 1 (CFG_OPTION_KEY_MAX - 1)).filter
        scan.groupIdxMap).length + 1 := by rw [keys, List.length_cons]
    rw [if_pos pg, total]
    simp only
    rw [writeIndex_foldl _ _ _ _ (by rw [List.length_replicate]; omega), List.append_assoc, keys]
    exact List.take_left' rfl
  · rw [if_neg pg, total]
    simp only
    rw [writeIndex_foldl _ _ _ _ (by
      rw [List.length_replicate, Nat.sub_zero, ← List.range_eq_range']
      exact (Nat.zero_add _).trans_le most), Nat.sub_zero, ← List.range_eq_range',
      List.append_assoc]
    exact List.take_left' rfl

theorem writeGroup_pg (valid : scan.valid = true)
    (total : scan.indexTotal = (usedKeys scan).length) (some : scan.indexTotal ≠ 0)
    (first : scan.groupIdxMap 0 = false) :
    (writeGroup .pg scan).keys = 0 :: (usedKeys scan).dropLast := by
  have most := @length_usedKeys scan
  have keys : usedKeys scan = (List.range' 1 (CFG_OPTION_KEY_MAX - 1)).filter
      scan.groupIdxMap := by
    rw [usedKeys, range_key_max, List.filter_cons_of_neg (by simp [first])]
  have fewer : (usedKeys scan).length ≤ CFG_OPTION_KEY_MAX - 1 := by
    rw [keys]
    exact (List.length_filter_le _ _).trans_eq List.length_range'
  have positive : 0 < CFG_OPTION_KEY_MAX := by decide
  rw [writeGroup, if_neg (by simp [valid]), if_neg some, OptionGroup.keys, if_pos rfl, total]
  simp only
  rw [writeIndex_foldl _ _ _ _ (by rw [List.length_replicate, ← keys]; omega), ← keys,
    List.append_assoc, List.dropLast_eq_take]
  obtain ⟨n, size⟩ := Nat.exists_eq_succ_of_ne_zero (total ▸ some)
  rw [size]
  show 0 :: List.take n (usedKeys scan ++ _) = _
  rw [List.take_append_of_le_length (by omega)]
  rfl

end Write

/-! ## The values -/

section Load

variable {ι : Type} [DecidableEq ι] {rules : ParseRules ι} {parse : ι → ParseOption}

theorem mapM_getElem? {α β ε : Type} {f : α → Except ε β} {items : List α} {results : List β}
    (run : items.mapM f = .ok results) {i : Nat} {a : α} (at_ : items[i]? = some a) :
    ∃ b, results[i]? = some b ∧ f a = .ok b := by
  induction items generalizing results i with
  | nil => simp at at_
  | cons first rest ih =>
    rw [List.mapM_cons] at run
    obtain ⟨b, head, run⟩ := except_bind_ok run
    obtain ⟨tail, rests, run⟩ := except_bind_ok run
    cases run
    cases i with
    | zero =>
      rw [List.getElem?_cons_zero, Option.some_inj] at at_
      exact ⟨b, rfl, at_ ▸ head⟩
    | succ i => exact ih rests at_

def Resolved (rules : ParseRules ι) (config : Config ι) (o : ι) (idx : Nat) : Prop :=
  ∀ depend ∈ rules.depends o, ∃ dependValue, config.value depend.option idx = some dependValue ∧
    (depend.list = [] ∨ ∃ item ∈ depend.list, dependText dependValue = some item)

/-- The value of an option for a key is at an index. A text value that is negated, or one whose
dependency is not resolved, is not kept. -/
def StoredAt (rules : ParseRules ι) (config : Config ι) (o : ι) (k idx : Nat)
    (value : ParseOptionValue) : Prop :=
  ∃ stored, (config.index o).bind (·[idx]?) = some stored ∧ stored.negate = value.negate ∧
    stored.reset = false ∧
    (rules.type o = .boolean ∨ value.negate = false → Resolved rules config o idx →
      stored.source = value.source ∧
        ∃ loaded, loadValue rules o k value = .ok loaded ∧ stored.value = some loaded)

variable {config config' : Config ι} {o : ι} {k idx : Nat} {value : ParseOptionValue}
  {group : ConfigOptionGroup}

omit [DecidableEq ι] in
theorem dependResolved_of_resolved (value : ParseOptionValue)
    (resolved : Resolved rules config o idx) :
    dependResolved rules config o idx k value = .ok true := by
  rw [dependResolved]
  cases depends : rules.depends o with
  | none => rfl
  | some depend =>
    obtain ⟨dependValue, present, listed⟩ := resolved depend depends
    simp only [present]
    have inList : (depend.list = [] || depend.list.any
        (fun item => dependText dependValue = some item)) = true := by
      rcases listed with none | ⟨item, mem, same⟩
      · simp [none]
      · have found : depend.list.any (fun item => dependText dependValue = some item) = true :=
          List.any_eq_true.mpr ⟨item, mem, decide_eq_true same⟩
        rw [found, Bool.or_true]
    exact if_pos inList

omit [DecidableEq ι] in
theorem loadIndex_flags {stored : ConfigOptionValue}
    (run : loadIndex rules parse config o idx = .ok stored) (key : keyIdxOf rules config o idx = k)
    (at_ : (parse o).indexList.getD k {} = value) :
    stored.negate = value.negate ∧ stored.reset = value.reset := by
  rw [loadIndex] at run
  simp only [key, at_] at run
  obtain ⟨resolved, -, run⟩ := except_bind_ok run
  split at run
  · split at run
    · obtain ⟨loaded, -, run⟩ := except_bind_ok run
      cases run
      exact ⟨rfl, rfl⟩
    · split at run
      · cases run
        exact ⟨rfl, rfl⟩
      · split at run
        · cases run
          exact ⟨rfl, rfl⟩
        · split at run
          · cases run
          · cases run
            exact ⟨rfl, rfl⟩
  · cases run
    exact ⟨rfl, rfl⟩

omit [DecidableEq ι] in
theorem loadIndex_value {stored : ConfigOptionValue}
    (run : loadIndex rules parse config o idx = .ok stored) (key : keyIdxOf rules config o idx = k)
    (at_ : (parse o).indexList.getD k {} = value) (set : optionSet rules o value = true)
    (resolved : Resolved rules config o idx) :
    stored.source = value.source ∧
      ∃ loaded, loadValue rules o k value = .ok loaded ∧ stored.value = some loaded := by
  rw [loadIndex] at run
  simp only [key, at_] at run
  rw [dependResolved_of_resolved value resolved] at run
  obtain ⟨yes, same, run⟩ := except_bind_ok run
  cases same
  rw [if_pos rfl, if_pos set] at run
  obtain ⟨loaded, load, run⟩ := except_bind_ok run
  cases run
  exact ⟨rfl, loaded, load, rfl⟩

theorem loadOption_frame (run : loadOption rules parse config o = .ok config') :
    config'.optionGroup = config.optionGroup ∧ ∀ p ≠ o, config'.index p = config.index p := by
  rw [loadOption] at run
  split at run
  · cases run
    exact ⟨rfl, fun _ _ => rfl⟩
  · obtain ⟨values, -, run⟩ := except_bind_ok run
    cases run
    exact ⟨rfl, fun p other => Function.update_of_ne other _ _⟩

theorem loadOption_foldlM_frame {options : List ι}
    (run : options.foldlM (loadOption rules parse) config = .ok config') :
    config'.optionGroup = config.optionGroup ∧
      ∀ p, p ∉ options → config'.index p = config.index p := by
  induction options generalizing config with
  | nil =>
    cases run
    exact ⟨rfl, fun _ _ => rfl⟩
  | cons o rest ih =>
    rw [List.foldlM_cons] at run
    obtain ⟨next, step, run⟩ := except_bind_ok run
    obtain ⟨groups, others⟩ := loadOption_frame step
    obtain ⟨groups', others'⟩ := ih run
    refine ⟨groups'.trans groups, fun p absent => ?_⟩
    rw [others' p fun mem => absent (List.mem_cons_of_mem _ mem),
      others p fun same => absent (same ▸ List.mem_cons_self)]

/-- The value at each index of an option is loaded with what was resolved before it. -/
theorem loadOption_index (run : loadOption rules parse config o = .ok config')
    (valid : rules.valid o = true) (grouped : rules.group o = some group)
    (inside : idx < (config.optionGroup group).indexTotal) :
    ∃ stored, (config'.index o).bind (·[idx]?) = some stored ∧
      loadIndex rules parse config o idx = .ok stored := by
  rw [loadOption, if_neg (by simp [valid])] at run
  obtain ⟨values, load, run⟩ := except_bind_ok run
  cases run
  rw [grouped] at load
  obtain ⟨stored, at_, one⟩ := mapM_getElem? load (List.getElem?_range inside)
  exact ⟨stored, by simpa using at_, one⟩

theorem configParse_stored (parsed : configParse rules parse = .ok config)
    (valid : rules.valid o = true) (grouped : rules.group o = some group)
    (found : FoundAt parse o k value) (inside : idx < (config.optionGroup group).indexTotal)
    (key : (config.optionGroup group).indexMap.getD idx 0 = k) :
    StoredAt rules config o k idx value := by
  rw [configParse] at parsed
  obtain ⟨optionGroup, -, run⟩ := except_bind_ok parsed
  obtain ⟨front, back, order⟩ := List.append_of_mem (rules.mem_order o)
  have nodup := rules.order_nodup
  have before := rules.order_depend
  rw [order] at run nodup before
  rw [List.foldlM_append] at run
  obtain ⟨config₁, first, run⟩ := except_bind_ok run
  rw [List.foldlM_cons] at run
  obtain ⟨config₂, step, run⟩ := except_bind_ok run
  obtain ⟨groups₁, -⟩ := loadOption_frame step
  obtain ⟨groups₂, others⟩ := loadOption_foldlM_frame run
  have groups : config.optionGroup = config₁.optionGroup := groups₂.trans groups₁
  have last : o ∉ back := (List.nodup_cons.mp (List.nodup_append.mp nodup).2.1).1
  rw [groups] at inside key
  obtain ⟨stored, at_, load⟩ := loadOption_index step valid grouped inside
  have read : (parse o).indexList.getD k {} = value := by
    rw [List.getD_eq_getElem?_getD, found.1]
    rfl
  have keyed : keyIdxOf rules config₁ o idx = k := by
    rw [keyIdxOf, grouped]
    exact key
  obtain ⟨negate, reset⟩ := loadIndex_flags load keyed read
  refine ⟨stored, by rw [others o last]; exact at_, negate, reset.trans found.2.2, ?_⟩
  intro kept resolved
  have set : optionSet rules o value = true := by
    rw [optionSet, found.2.1, found.2.2]
    rcases kept with boolean | plain
    · simp [boolean]
    · simp [plain]
  refine loadIndex_value load keyed read set ?_
  -- what the option depends on was resolved before it
  intro depend depends
  obtain ⟨dependValue, present, listed⟩ := resolved depend depends
  refine ⟨dependValue, ?_, listed⟩
  have after := (List.pairwise_cons.mp (List.pairwise_append.mp before).2.1).1
  have absent : depend.option ∉ back := fun mem => after _ mem depend depends rfl
  rw [Config.value, others _ absent,
    (loadOption_frame step).2 _ (rules.depend_other o depend depends)] at present
  exact present

/-! ## The groups of the configuration -/

structure Indexed (rules : ParseRules ι) (parse : ι → ParseOption) (config : Config ι)
    (group : ConfigOptionGroup) : Prop where
  total : (config.optionGroup group).keys.length = (config.optionGroup group).indexTotal
  sorted : (config.optionGroup group).keys.Pairwise (· < ·)
  mem : ∀ k, k ∈ (config.optionGroup group).keys ↔
    Used rules parse group k ∨ k = 0 ∧ (group = .pg ∨ ∀ j, ¬ Used rules parse group j)
  stored : ∀ o k value, rules.valid o = true → rules.group o = some group →
    FoundAt parse o k value →
    ∃ idx, (config.optionGroup group).keys[idx]? = some k ∧ StoredAt rules config o k idx value

theorem configParse_scanned (parsed : configParse rules parse = .ok config)
    (group : ConfigOptionGroup) :
    ∃ scan, config.optionGroup group = writeGroup group scan ∧
      (scan.valid = true ↔ ∃ o, rules.valid o = true ∧ rules.group o = some group) ∧
      Counted (Used rules parse group) scan := by
  rw [configParse] at parsed
  obtain ⟨optionGroup, resolve, run⟩ := except_bind_ok parsed
  rw [resolveGroups] at resolve
  obtain ⟨scan, scans, resolve⟩ := except_bind_ok resolve
  cases resolve
  have scanned := scanOption_foldlM (fun group => scanned_nil group) scans group
  rw [List.nil_append] at scanned
  rw [(loadOption_foldlM_frame run).1]
  refine ⟨scan group, rfl, ?_, fun k => ?_, scanned.counted.total⟩
  · rw [scanned.valid]
    simp [rules.mem_option]
  · rw [scanned.counted.map]
    simp only [rules.mem_option, true_and, and_assoc, Used]

theorem writeGroup_valid (group : ConfigOptionGroup) (scan : GroupScan) :
    (writeGroup group scan).valid = scan.valid := by
  rw [writeGroup]
  split
  · rfl
  · split <;> rfl

theorem Counted.mem_usedKeys {P : Nat → Prop} {scan : GroupScan} (counted : Counted P scan)
    (short : ∀ k, P k → k < CFG_OPTION_KEY_MAX) (k : Nat) : k ∈ usedKeys scan ↔ P k := by
  rw [usedKeys, List.mem_filter, List.mem_range, counted.map]
  exact ⟨And.right, fun used => ⟨short k used, used⟩⟩

omit [DecidableEq ι] in
theorem Used.short (used : Used rules parse group k) :
    k < CFG_OPTION_KEY_MAX := by
  obtain ⟨o, -, -, value, found⟩ := used
  exact found.short

theorem stored_of_mem (parsed : configParse rules parse = .ok config) (valid : rules.valid o = true)
    (grouped : rules.group o = some group) (found : FoundAt parse o k value)
    (mem : k ∈ (config.optionGroup group).keys) :
    ∃ idx, (config.optionGroup group).keys[idx]? = some k ∧ StoredAt rules config o k idx value := by
  obtain ⟨idx, at_⟩ := List.mem_iff_getElem?.mp mem
  refine ⟨idx, at_, ?_⟩
  rw [OptionGroup.keys, List.getElem?_take] at at_
  split at at_
  · refine configParse_stored parsed valid grouped found ‹_› ?_
    rw [List.getD_eq_getElem?_getD, at_]
    rfl
  · cases at_

/-- A group of which the keys are those that are used, or key 1 alone when none is, and in
which key 1 is used if the group is the pg group and has any, gives each key its index. -/
theorem configParse_group (rules : ParseRules ι) (parse : ι → ParseOption) (config : Config ι)
    (parsed : configParse rules parse = .ok config) (group : ConfigOptionGroup)
    (valid : (config.optionGroup group).valid = true)
    (first : group = .pg → (∃ k, Used rules parse group k) → Used rules parse group 0) :
    Indexed rules parse config group := by
  obtain ⟨scan, written, -, counted⟩ := configParse_scanned parsed group
  have isValid : scan.valid = true := by rw [← writeGroup_valid group scan, ← written, valid]
  have memUsed := counted.mem_usedKeys fun k used => used.short
  have stored : (∀ k, Used rules parse group k → k ∈ (config.optionGroup group).keys) →
      ∀ o k value, rules.valid o = true → rules.group o = some group → FoundAt parse o k value →
      ∃ idx, (config.optionGroup group).keys[idx]? = some k ∧
        StoredAt rules config o k idx value := by
    intro all o k value ofCommand grouped found
    exact stored_of_mem parsed ofCommand grouped found
      (all k ⟨o, ofCommand, grouped, value, found⟩)
  by_cases none : scan.indexTotal = 0
  · have keys : (config.optionGroup group).keys = [0] := by
      rw [written]
      exact writeGroup_unused group isValid none
    have total : (config.optionGroup group).indexTotal = 1 := by
      rw [written, writeGroup, if_neg (by simp [isValid]), if_pos none]
    have noneUsed : ∀ j, ¬ Used rules parse group j := by
      intro j used
      have empty : usedKeys scan = [] := List.length_eq_zero_iff.mp (counted.total.symm.trans none)
      have mem := (memUsed j).mpr used
      rw [empty] at mem
      cases mem
    refine ⟨by rw [keys, total]; rfl, by rw [keys]; exact List.pairwise_singleton _ _, fun k => ?_,
      stored fun k used => absurd used (noneUsed k)⟩
    rw [keys, List.mem_singleton]
    constructor
    · exact fun same => Or.inr ⟨same, Or.inr noneUsed⟩
    · rintro (used | ⟨same, -⟩)
      · exact absurd used (noneUsed k)
      · exact same
  · have some : ∃ k, Used rules parse group k := by
      obtain ⟨k, mem⟩ := List.exists_mem_of_length_pos (l := usedKeys scan)
        (by have total : _ = (usedKeys scan).length := counted.total; omega)
      exact ⟨k, (memUsed k).mp mem⟩
    have zero : group = .pg → Used rules parse group 0 := fun pg => first pg some
    have keys : (config.optionGroup group).keys = usedKeys scan := by
      rw [written]
      exact writeGroup_used isValid counted.total none fun pg => (counted.map 0).mpr (zero pg)
    have total : (config.optionGroup group).indexTotal = scan.indexTotal := by
      rw [written, writeGroup, if_neg (by simp [isValid]), if_neg none]
    refine ⟨by rw [keys, total]; exact counted.total.symm, by rw [keys]; exact usedKeys_sorted,
      fun k => ?_, stored fun k used => by rw [keys]; exact (memUsed k).mpr used⟩
    rw [keys, memUsed]
    constructor
    · exact Or.inl
    · rintro (used | ⟨rfl, pg | noneUsed⟩)
      · exact used
      · exact zero pg
      · obtain ⟨k, used⟩ := some
        exact absurd used (noneUsed k)

theorem configParse_pg (parsed : configParse rules parse = .ok config)
    (valid : (config.optionGroup .pg).valid = true) (first : ¬ Used rules parse .pg 0)
    (used : Used rules parse .pg k) (last : ∀ j, Used rules parse .pg j → j ≤ k) :
    k ∉ (config.optionGroup .pg).keys := by
  obtain ⟨scan, written, -, counted⟩ := configParse_scanned parsed .pg
  have isValid : scan.valid = true := by rw [← writeGroup_valid .pg scan, ← written, valid]
  have memUsed := counted.mem_usedKeys fun k used => used.short
  have mem := (memUsed k).mpr used
  have some : scan.indexTotal ≠ 0 := by
    rw [counted.total]
    exact (List.length_pos_of_mem mem).ne'
  rw [written, writeGroup_pg isValid counted.total some
    (Bool.eq_false_iff.mpr (mt (counted.map 0).mp first))]
  intro listed
  rcases List.mem_cons.mp listed with rfl | early
  · exact first used
  -- the key would be before the last of the used keys, which is not larger
  obtain ⟨front, top, split⟩ := (List.eq_nil_or_concat (usedKeys scan)).resolve_left
    (List.ne_nil_of_mem mem)
  rw [List.concat_eq_append] at split
  have sorted := @usedKeys_sorted scan
  rw [split] at sorted early
  rw [List.dropLast_concat] at early
  have before := (List.pairwise_append.mp sorted).2.2 k early top (List.mem_singleton_self _)
  have most := last top ((memUsed top).mp (by rw [split]; simp))
  omega

end Load

/-! ## A group with two keys -/

inductive PgOption
  | pgLocal
  | pgHost
  | pgPath
  deriving DecidableEq

def backupRules : ParseRules PgOption where
  option := [.pgHost, .pgLocal, .pgPath]
  optionResolveOrder := [.pgLocal, .pgHost, .pgPath]
  command := "backup".toList
  help := false
  name
    | .pgLocal => "pg-local".toList
    | .pgHost => "pg-host".toList
    | .pgPath => "pg-path".toList
  type
    | .pgLocal => .boolean
    | .pgHost => .string
    | .pgPath => .path
  group := fun _ => some .pg
  valid := fun _ => true
  stanzaSection := fun _ => true
  depends
    | .pgHost => some ⟨.pgLocal, [['0']]⟩
    | _ => none
  default
    | .pgLocal => some (.bool false)
    | _ => none
  required
    | .pgPath => true
    | _ => false
  load := fun _ _ valueList => .ok (.str (valueList.headD []))
  mem_option := by rintro (_ | _ | _) <;> decide
  mem_order := by rintro (_ | _ | _) <;> decide
  order_nodup := by decide
  depend_other := by
    rintro (_ | _ | _) depend isDepend <;> cases isDepend
    decide
  order_depend := by
    refine List.pairwise_cons.mpr ⟨fun p _ depend none => (by cases none), ?_⟩
    refine List.pairwise_cons.mpr ⟨fun p mem depend isDepend => ?_, List.pairwise_singleton _ _⟩
    cases isDepend
    rw [List.mem_singleton.mp mem]
    decide

def twoKeys : PgOption → ParseOption
  | .pgLocal => { indexList := [{}, { found := true, source := .config }] }
  | .pgHost => { indexList := [{}, { found := true, source := .config, valueList := [['h']] }] }
  | .pgPath => { indexList := [{ found := true, source := .config, valueList := [['/', 'a']] },
      { found := true, source := .config, valueList := [['/', 'b']] }] }

theorem twoKeys_parsed : ∃ config, configParse backupRules twoKeys = .ok config ∧
    (config.optionGroup .pg).valid = true ∧ (config.optionGroup .pg).keys = [0, 1] ∧
    config.value .pgHost 1 = none := by
  cases parsed : configParse backupRules twoKeys with
  | error e =>
    have ok : (configParse backupRules twoKeys).toBool = true := by decide +kernel
    rw [parsed] at ok
    cases ok
  | ok config =>
    have found : (configParse backupRules twoKeys).toOption.all (fun config =>
        (config.optionGroup .pg).valid && decide ((config.optionGroup .pg).keys = [0, 1]) &&
          decide (config.value .pgHost 1 = none)) = true := by decide +kernel
    rw [parsed] at found
    simpa [and_assoc, Except.toOption] using found

/-- The host that was found for key 2 is not in the configuration. -/
theorem configParse_twoKeys :
    ¬ ∀ (rules : ParseRules PgOption) (parse : PgOption → ParseOption) (config : Config PgOption),
      configParse rules parse = .ok config → ∀ group, (config.optionGroup group).valid = true →
      ∀ o k value, rules.valid o = true → rules.group o = some group → FoundAt parse o k value →
        ∃ idx, (config.optionGroup group).keys[idx]? = some k ∧
          ∃ stored, config.value o idx = some stored := by
  intro claim
  obtain ⟨config, parsed, valid, keys, none⟩ := twoKeys_parsed
  obtain ⟨idx, at_, stored, isStored⟩ := claim backupRules twoKeys config parsed .pg valid .pgHost 1
    _ rfl rfl ⟨rfl, rfl, rfl⟩
  rw [keys] at at_
  have second : idx = 1 := by
    match idx with
    | 0 => cases at_
    | 1 => rfl
    | n + 2 => cases at_
  rw [second, none] at isStored
  cases isStored

theorem configParse_group_twoKeys : ∃ config, configParse backupRules twoKeys = .ok config ∧
    Indexed backupRules twoKeys config .pg := by
  obtain ⟨config, parsed, valid, -, -⟩ := twoKeys_parsed
  refine ⟨config, parsed, configParse_group backupRules twoKeys config parsed .pg valid fun _ _ => ?_⟩
  exact ⟨.pgPath, rfl, rfl, _, rfl, rfl, rfl⟩

end ConfigParse
