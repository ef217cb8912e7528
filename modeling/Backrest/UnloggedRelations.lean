import Mathlib.Data.Bool.AllAny
import Backrest.CachedFilter
import Backrest.PathName
import Backrest.RegExp
import Backrest.RestoreClean

/-!
# Unlogged relations

A new manifest leaves out the files of the unlogged relations: those of a database
directory whose init fork is in the manifest. The pass over the sorted files looks
the init fork up when the number of the relation changes.
-/

namespace UnloggedRelations

open Text BackupManifest PathName RegExp LexOrder CachedFilter
open RestoreClean (pgTablespaceId)

def pgPathGlobal : Str := "global".toList
def pgPathBase : Str := "base".toList
def manifestTargetPgData : Str := "pg_data".toList
def manifestTargetPgTblSpc : Str := "pg_tblspc".toList

section Expressions

def literal (s : Str) : Exp Char := .each (fun c => .one (fun a => a = c)) s

/-- The tablespace identifier is put into the expression as it is: its dot is any character. -/
def tablespaceExp (tablespaceId : Str) : Exp Char :=
  .each (fun c => .one (fun a => c = '.' || a = c)) tablespaceId

/-- `[0-9]+` -/
def numberExp : Exp Char := .atLeastOne (.one Char.isDigit)

/-- `RELATION_EXP` -/
def relationFileExp : Exp Char :=
  .seq numberExp
    (.seq (.optional (.seq (literal ['_']) (.either (literal "fsm".toList) (literal "vm".toList))))
      (.optional (.seq (literal ['.']) numberExp)))

/-- `DB_PATH_EXP` -/
def dbPathExp (tablespaceId : Str) : Exp Char :=
  .either
    (.seq (literal (manifestTargetPgData ++ ['/']))
      (.either (literal pgPathGlobal) (.seq (literal (pgPathBase ++ ['/'])) numberExp)))
    (.seq (literal (manifestTargetPgTblSpc ++ ['/']))
      (.seq numberExp (.seq (literal ['/'])
        (.seq (tablespaceExp tablespaceId) (.seq (literal ['/']) numberExp)))))

def relationExp (tablespaceId : Str) : Exp Char :=
  .seq (dbPathExp tablespaceId) (.seq (literal ['/']) relationFileExp)

end Expressions

section Pass

/-- The numeric part of the file name. -/
def relationFileId (name : Str) : Str := (strBaseZ name).takeWhile Char.isDigit

/-- The init fork in the directory of the file. -/
def relationInit (name : Str) : Str :=
  strSubN name 0 (pathSize name) ++ relationFileId name ++ "_init".toList

inductive Stop where
  | fuel
  | error (e : Error)
  /-- The number does not fit the buffer of 21 characters. -/
  | overflow (name : Str)

/-- `lastRelationFileId` and `lastRelationFileIdUnlogged` -/
abbrev LastRelation := Last Str

def relationLook (this : Manifest) (last : LastRelation) (name : Str) : LastRelation :=
  if last.key ≠ relationFileId name then
    ⟨relationFileId name, (manifestFileFindDefault this (relationInit name)).isSome⟩
  else last

def unloggedLoop (exp : Exp Char) : Nat → Manifest → Nat → LastRelation → Except Stop Manifest
  | 0, _, _, _ => .error .fuel
  | fuel + 1, this, fileIdx, last =>
    match this.fileList[fileIdx]? with
    | none => .ok this
    | some file =>
      if regExpMatch exp file.name = true then
        if 20 < (relationFileId file.name).length then .error (.overflow file.name)
        else if (relationLook this last file.name).verdict = true then
          match manifestFileRemove this file.name with
          | .error e => .error (.error e)
          | .ok this' => unloggedLoop exp fuel this' fileIdx (relationLook this last file.name)
        else unloggedLoop exp fuel this (fileIdx + 1) (relationLook this last file.name)
      else unloggedLoop exp fuel this (fileIdx + 1) last

def manifestSort (this : Manifest) : Manifest :=
  { this with
    fileList := sortBy (·.name) this.fileList
    linkList := sortBy (·.name) this.linkList
    pathList := sortBy (·.name) this.pathList
    targetList := sortBy (·.name) this.targetList }

/-- The end of `manifestNewBuild`: sort the lists and remove unlogged relations. -/
def unloggedRemove (this : Manifest) (pgVersion pgCatalogVersion : Nat) : Except Stop Manifest :=
  if 90100 ≤ pgVersion then
    unloggedLoop (relationExp ((pgTablespaceId pgVersion pgCatalogVersion).getD []))
      (this.fileList.length + 1) (manifestSort this) 0 ⟨[], false⟩
  else .ok (manifestSort this)

end Pass

section Names

theorem within_each {P : Char → Prop} {one : Char → Exp Char} {s : Str}
    (h : ∀ c ∈ s, (one c).Within P) : (Exp.each one s).Within P := by
  induction s with
  | nil => trivial
  | cons c s ih =>
    exact ⟨h c List.mem_cons_self, ih fun d hd => h d (List.mem_cons_of_mem c hd)⟩

/-- Neither a slash nor a letter of the ending `_init`. -/
def RelationChar (c : Char) : Prop := c ≠ '/' ∧ c ≠ 't'

instance (c : Char) : Decidable (RelationChar c) := inferInstanceAs (Decidable (_ ∧ _))

theorem within_literal {s : Str} (h : ∀ c ∈ s, RelationChar c) : (literal s).Within RelationChar := by
  apply within_each
  intro c hc a same
  rw [of_decide_eq_true same]
  exact h c hc

theorem relationChar_of_isDigit {c : Char} (h : c.isDigit = true) : RelationChar c := by
  constructor
  · rintro rfl
    exact absurd h (by decide)
  · rintro rfl
    exact absurd h (by decide)

theorem within_relationFileExp : relationFileExp.Within RelationChar := by
  have number : numberExp.Within RelationChar :=
    ⟨fun _ => relationChar_of_isDigit, fun _ => relationChar_of_isDigit⟩
  have fork : (literal "fsm".toList).Within RelationChar := within_literal (List.all_iff_forall_prop.mp (by decide))
  have map : (literal "vm".toList).Within RelationChar := within_literal (List.all_iff_forall_prop.mp (by decide))
  have bar : (literal ['_']).Within RelationChar := within_literal (List.all_iff_forall_prop.mp (by decide))
  have dot : (literal ['.']).Within RelationChar := within_literal (List.all_iff_forall_prop.mp (by decide))
  exact ⟨number, ⟨⟨bar, fork, map⟩, trivial⟩, ⟨dot, number⟩, trivial⟩

/-- A relation file: a directory, and a file name that begins with a digit. -/
theorem relation_shape {tablespaceId name : Str}
    (h : regExpMatch (relationExp tablespaceId) name = true) :
    ∃ path digit rest, name = path ++ '/' :: digit :: rest ∧ digit.isDigit = true ∧
      ∀ c ∈ digit :: rest, RelationChar c := by
  obtain ⟨path, tail, -, htail, rfl⟩ := matches_seq.mp (regExpMatch_iff.mp h)
  obtain ⟨slash, base, hslash, hbase, rfl⟩ := matches_seq.mp htail
  obtain ⟨s, none, hs, hnone, rfl⟩ := matches_seq.mp hslash
  obtain ⟨c, hc, rfl⟩ := matches_one.mp hs
  obtain rfl := matches_empty.mp hnone
  obtain rfl : c = '/' := of_decide_eq_true hc
  obtain ⟨number, rest, hnumber, -, rfl⟩ := matches_seq.mp hbase
  obtain ⟨first, digits, hfirst, -, rfl⟩ := matches_seq.mp hnumber
  obtain ⟨digit, hd, rfl⟩ := matches_one.mp hfirst
  exact ⟨path, digit, digits ++ rest, by simp, hd, hbase.within within_relationFileExp⟩

theorem relationFileId_append {path base : Str} (h : '/' ∉ base) :
    relationFileId (path ++ '/' :: base) = base.takeWhile Char.isDigit := by
  unfold relationFileId
  rw [strBaseZ_append h]

theorem relationInit_append {path base : Str} (h : '/' ∉ base) :
    relationInit (path ++ '/' :: base) =
      path ++ '/' :: (base.takeWhile Char.isDigit ++ "_init".toList) := by
  unfold relationInit
  rw [take_pathSize h, relationFileId_append h]
  simp

theorem relationFileId_ne_nil {tablespaceId name : Str}
    (h : regExpMatch (relationExp tablespaceId) name = true) : relationFileId name ≠ [] := by
  obtain ⟨path, digit, rest, rfl, hd, chars⟩ := relation_shape h
  rw [relationFileId_append fun slash => (chars _ slash).1 rfl, List.takeWhile_cons_of_pos hd]
  exact List.cons_ne_nil _ _

/-- The expression never matches an init fork. -/
theorem init_not_relation {tablespaceId name : Str}
    (h : regExpMatch (relationExp tablespaceId) name = true) :
    regExpMatch (relationExp tablespaceId) (relationInit name) = false := by
  obtain ⟨path, digit, rest, rfl, -, chars⟩ := relation_shape h
  have plain : '/' ∉ digit :: rest := fun slash => (chars _ slash).1 rfl
  rw [relationInit_append plain]
  apply Bool.eq_false_iff.mpr
  intro matched
  obtain ⟨path', digit', rest', same, -, chars'⟩ := relation_shape matched
  have ending : '/' ∉ "_init".toList := by decide
  have base : '/' ∉ (digit :: rest).takeWhile Char.isDigit ++ "_init".toList := by
    intro slash
    rcases List.mem_append.mp slash with slash | slash
    · exact plain ((List.takeWhile_subset _) slash)
    · exact ending slash
  have bases := congrArg strBaseZ same
  rw [strBaseZ_append base, strBaseZ_append fun slash => (chars' _ slash).1 rfl] at bases
  have letter : 't' ∈ "_init".toList := by decide
  exact (chars' _ (bases ▸ List.mem_append_right _ letter)).2 rfl

end Names

section Loop

def withFiles (this : Manifest) (fileList : List ManifestFile) : Manifest :=
  { this with fileList := fileList }

/-- What the pass asks of a file name. -/
def relationQuery (this : Manifest) (exp : Exp Char) : Query Str Str where
  counts := regExpMatch exp
  key := relationFileId
  verdict name := (manifestFileFindDefault this (relationInit name)).isSome

theorem find_isSome {this : Manifest} {name : Str} :
    (manifestFileFindDefault this name).isSome = true ↔ ∃ file ∈ this.fileList, file.name = name := by
  unfold manifestFileFindDefault
  rw [List.find?_isSome]
  simp

variable {kept rest : List ManifestFile} {file : ManifestFile} {last : LastRelation}

theorem manifestFileRemove_at {this : Manifest} (first : ∀ k ∈ kept, k.name ≠ file.name) :
    manifestFileRemove (withFiles this (kept ++ file :: rest)) file.name =
      .ok (withFiles this (kept ++ rest)) := by
  have present : (manifestFileFindDefault (withFiles this (kept ++ file :: rest)) file.name).isSome =
      true :=
    find_isSome.mpr ⟨file, List.mem_append_right _ List.mem_cons_self, rfl⟩
  obtain ⟨found, hfound⟩ := Option.isSome_iff_exists.mp present
  have others : ∀ k ∈ kept, ¬ decide (k.name = file.name) = true := by
    intro k hk
    rw [decide_eq_true_iff]
    exact first k hk
  unfold manifestFileRemove
  rw [hfound]
  dsimp only [withFiles]
  rw [List.eraseP_append_right _ others, List.eraseP_cons_of_pos (by simp)]

variable {tablespaceId : Str} {whole : Manifest}

/-- The list of the loop while it runs: `kept` is behind the index. -/
structure Between (tablespaceId : Str) (whole : Manifest) (kept rest : List ManifestFile)
    (last : LastRelation) : Prop where
  sorted : (kept ++ rest).Pairwise (fun a b => a.name ≤ b.name)
  inits : ∀ name, regExpMatch (relationExp tablespaceId) name = false →
    ((∃ file ∈ kept ++ rest, file.name = name) ↔ ∃ file ∈ whole.fileList, file.name = name)
  keptLast : ∀ k ∈ kept, ∀ file ∈ rest, k.name = file.name →
    regExpMatch (relationExp tablespaceId) k.name = true → last = ⟨relationFileId k.name, false⟩

theorem relationLook_eq {name : Str} (between : Between tablespaceId whole kept rest last)
    (h : regExpMatch (relationExp tablespaceId) name = true) :
    relationLook (withFiles whole (kept ++ rest)) last name =
      (relationQuery whole (relationExp tablespaceId)).look last name := by
  have verdict : (manifestFileFindDefault (withFiles whole (kept ++ rest)) (relationInit name)).isSome =
      (manifestFileFindDefault whole (relationInit name)).isSome := by
    rw [Bool.eq_iff_iff, find_isSome, find_isSome]
    exact between.inits _ (init_not_relation h)
  unfold relationLook Query.look relationQuery
  rw [verdict]

section Present
variable (between : Between tablespaceId whole kept (file :: rest) last)
include between

theorem Between.other (other : ¬ regExpMatch (relationExp tablespaceId) file.name = true) :
    Between tablespaceId whole (kept ++ [file]) rest last := by
  have lists : kept ++ [file] ++ rest = kept ++ file :: rest := by simp
  refine ⟨lists ▸ between.sorted, lists ▸ between.inits, ?_⟩
  intro k hk b hb same matched
  rcases List.mem_append.mp hk with hk | hk
  · exact between.keptLast k hk b (List.mem_cons_of_mem _ hb) same matched
  · cases List.mem_singleton.mp hk
    exact absurd matched other

theorem Between.present {k b : ManifestFile} (hk : k ∈ kept)
    (hb : b ∈ file :: rest) (same : k.name = b.name) : k.name = file.name := by
  obtain ⟨-, sorted, apart⟩ := List.pairwise_append.mp between.sorted
  apply le_antisymm (apart k hk file List.mem_cons_self)
  rcases List.mem_cons.mp hb with rfl | hb
  · exact same.ge
  · exact same ▸ (List.pairwise_cons.mp sorted).1 b hb

theorem Between.relation (look : LastRelation)
    (hlook : look = (relationQuery whole (relationExp tablespaceId)).look last file.name)
    (good : look.verdict = false) : Between tablespaceId whole (kept ++ [file]) rest look := by
  have lists : kept ++ [file] ++ rest = kept ++ file :: rest := by simp
  have key : look.key = relationFileId file.name := by
    rw [hlook]
    exact look_key file.name
  have value : look = ⟨relationFileId file.name, false⟩ := by
    rw [← key, ← good]
  refine ⟨lists ▸ between.sorted, lists ▸ between.inits, ?_⟩
  intro k hk b hb same matched
  rcases List.mem_append.mp hk with hk | hk
  · rw [between.present hk (List.mem_cons_of_mem _ hb) same]
    exact value
  · cases List.mem_singleton.mp hk
    exact value

theorem Between.removed
    (matched : regExpMatch (relationExp tablespaceId) file.name = true) (look : LastRelation)
    (hlook : look = (relationQuery whole (relationExp tablespaceId)).look last file.name)
    (bad : look.verdict = true) :
    (∀ k ∈ kept, k.name ≠ file.name) ∧ Between tablespaceId whole kept rest look := by
  have first : ∀ k ∈ kept, k.name ≠ file.name := by
    intro k hk same
    have hlast := between.keptLast k hk file List.mem_cons_self same (same ▸ matched)
    have unchanged : look = last := by
      rw [hlook]
      apply look_same
      rw [hlast, same]
      rfl
    rw [unchanged, hlast] at bad
    exact Bool.false_ne_true bad
  refine ⟨first, ?_, ?_, ?_⟩
  · exact between.sorted.sublist (List.Sublist.append_left (List.sublist_cons_self file rest) kept)
  · intro name other
    rw [← between.inits name other]
    constructor
    · rintro ⟨b, hb, named⟩
      refine ⟨b, ?_, named⟩
      rcases List.mem_append.mp hb with hb | hb
      · exact List.mem_append_left _ hb
      · exact List.mem_append_right _ (List.mem_cons_of_mem _ hb)
    · rintro ⟨b, hb, named⟩
      refine ⟨b, ?_, named⟩
      rcases List.mem_append.mp hb with hb | hb
      · exact List.mem_append_left _ hb
      · rcases List.mem_cons.mp hb with rfl | hb
        · rw [named, other] at matched
          exact absurd matched (by decide)
        · exact List.mem_append_right _ hb
  · intro k hk b hb same _
    exact absurd (between.present hk (List.mem_cons_of_mem _ hb) same) (first k hk)

end Present

/-- The number of the relation fits the buffer. -/
def Fits (exp : Exp Char) (files : List ManifestFile) : Prop :=
  ∀ file ∈ files, regExpMatch exp file.name = true → (relationFileId file.name).length ≤ 20

theorem fits_cons {exp : Exp Char} {files : List ManifestFile} :
    Fits exp (file :: files) ↔
      (regExpMatch exp file.name = true → (relationFileId file.name).length ≤ 20) ∧ Fits exp files :=
  List.forall_mem_cons

theorem unloggedLoop_spec {fuel : Nat} {result : Manifest}
    (between : Between tablespaceId whole kept rest last) (enough : rest.length < fuel) :
    unloggedLoop (relationExp tablespaceId) fuel (withFiles whole (kept ++ rest)) kept.length last =
        .ok result ↔
      Fits (relationExp tablespaceId) rest ∧ result = withFiles whole
        (kept ++ scan (relationQuery whole (relationExp tablespaceId)) (·.name) last rest) := by
  induction rest generalizing kept last fuel with
  | nil =>
    obtain ⟨fuel, rfl⟩ := Nat.exists_eq_succ_of_ne_zero (Nat.ne_of_gt enough)
    have done : (withFiles whole (kept ++ [])).fileList[kept.length]? = none := by
      simp [withFiles]
    unfold unloggedLoop
    rw [done]
    constructor
    · intro run
      exact ⟨nofun, (Except.ok.inj run).symm⟩
    · rintro ⟨-, rfl⟩
      rfl
  | cons file rest ih =>
    obtain ⟨fuel, rfl⟩ := Nat.exists_eq_succ_of_ne_zero (Nat.ne_of_gt (Nat.zero_lt_of_lt enough))
    have next : rest.length < fuel := by
      rw [List.length_cons] at enough
      omega
    have found : (withFiles whole (kept ++ file :: rest)).fileList[kept.length]? = some file := by
      simp [withFiles]
    have lists : kept ++ file :: rest = kept ++ [file] ++ rest := by simp
    have index : kept.length + 1 = (kept ++ [file]).length := by simp
    unfold unloggedLoop
    rw [found, fits_cons]
    dsimp only
    by_cases matched : regExpMatch (relationExp tablespaceId) file.name = true
    · rw [if_pos matched]
      by_cases long : 20 < (relationFileId file.name).length
      · rw [if_pos long]
        constructor
        · exact nofun
        · rintro ⟨⟨short, -⟩, -⟩
          exact absurd (short matched) (by omega)
      · rw [if_neg long, relationLook_eq between matched]
        have short : regExpMatch (relationExp tablespaceId) file.name = true →
            (relationFileId file.name).length ≤ 20 := fun _ => by omega
        have counted : (relationQuery whole (relationExp tablespaceId)).counts file.name = true :=
          matched
        rw [and_iff_right short, scan_counted counted]
        generalize hlook : (relationQuery whole (relationExp tablespaceId)).look last file.name = look
        by_cases bad : look.verdict = true
        · obtain ⟨first, removed⟩ := between.removed matched look hlook.symm bad
          rw [if_pos bad, if_pos bad, manifestFileRemove_at first]
          exact ih removed next
        · have good : look.verdict = false := Bool.eq_false_iff.mpr bad
          rw [if_neg bad, if_neg bad, lists, index,
            ih (between.relation look hlook.symm good) next, List.append_assoc,
            List.singleton_append]
    · have other : ¬ (relationQuery whole (relationExp tablespaceId)).counts file.name = true :=
        matched
      rw [if_neg matched, and_iff_right (fun h => absurd h matched), lists, index,
        ih (between.other matched) next, scan_other other, List.append_assoc,
        List.singleton_append]

end Loop

section Removal

def withoutUnlogged (this : Manifest) (exp : Exp Char) : Manifest :=
  withFiles this (this.fileList.filter fun file =>
    !(regExpMatch exp file.name && (manifestFileFindDefault this (relationInit file.name)).isSome))

/-- The names of the relation files in the order of the pass. -/
def relationNames (this : Manifest) (exp : Exp Char) : List Str :=
  (this.fileList.map (·.name)).filter (regExpMatch exp)

/-- The init forks of both names are in the manifest or of neither. -/
def SameInit (this : Manifest) (a b : Str) : Prop :=
  (manifestFileFindDefault this (relationInit a)).isSome =
    (manifestFileFindDefault this (relationInit b)).isSome

instance (this : Manifest) (a b : Str) : Decidable (SameInit this a b) :=
  inferInstanceAs (Decidable (_ = _))

/-- The pass removes the files of unlogged relations and no others if and only if relation files
that follow each other with one number agree on the init fork, and no number is longer than the
buffer. -/
theorem unloggedRemove_iff (this : Manifest) {pgVersion pgCatalogVersion : Nat}
    (version : 90100 ≤ pgVersion) :
    let exp := relationExp ((pgTablespaceId pgVersion pgCatalogVersion).getD [])
    unloggedRemove this pgVersion pgCatalogVersion =
        .ok (withoutUnlogged (manifestSort this) exp) ↔
      (∀ name ∈ relationNames (manifestSort this) exp, (relationFileId name).length ≤ 20) ∧
        (relationNames (manifestSort this) exp).IsChain fun a b =>
          relationFileId a = relationFileId b → SameInit (manifestSort this) a b := by
  intro exp
  have sorted : (manifestSort this).fileList.Pairwise (fun a b => a.name ≤ b.name) :=
    sortBy_pairwise _ _
  have start : Between ((pgTablespaceId pgVersion pgCatalogVersion).getD []) (manifestSort this) []
      (manifestSort this).fileList ⟨[], false⟩ := by
    refine ⟨sorted, fun name _ => Iff.rfl, ?_⟩
    exact nofun
  have length : (manifestSort this).fileList.length < this.fileList.length + 1 := by
    have := (sortBy_perm (·.name) this.fileList).length_eq
    dsimp only [manifestSort]
    omega
  have fits : Fits exp (manifestSort this).fileList ↔
      ∀ name ∈ relationNames (manifestSort this) exp, (relationFileId name).length ≤ 20 := by
    unfold Fits relationNames
    constructor
    · intro short name hname
      obtain ⟨hmem, matched⟩ := List.mem_filter.mp hname
      obtain ⟨file, hfile, rfl⟩ := List.mem_map.mp hmem
      exact short file hfile matched
    · intro short file hfile matched
      exact short _ (List.mem_filter.mpr ⟨List.mem_map_of_mem hfile, matched⟩)
  have spec : scan (relationQuery (manifestSort this) exp) (·.name) ⟨[], false⟩
        (manifestSort this).fileList = (withoutUnlogged (manifestSort this) exp).fileList ↔ _ :=
    scan_eq_filter_iff sorted
  -- No relation has the empty number that the pass starts with.
  have fresh : ∀ n ∈ (relationNames (manifestSort this) exp).head?,
      ([] : Str) = relationFileId n →
        false = (manifestFileFindDefault (manifestSort this) (relationInit n)).isSome := by
    intro n hn empty
    have matched := (List.mem_filter.mp (List.mem_of_mem_head? hn)).2
    exact absurd empty.symm (relationFileId_ne_nil matched)
  have run : unloggedLoop exp (this.fileList.length + 1) (manifestSort this) 0 ⟨[], false⟩ =
      .ok (withoutUnlogged (manifestSort this) exp) ↔ _ := unloggedLoop_spec start length
  unfold unloggedRemove
  rw [if_pos version]
  refine run.trans (and_congr fits ?_)
  constructor
  · intro same
    exact (spec.mp (congrArg Manifest.fileList same).symm).2
  · intro chain
    exact congrArg (withFiles (manifestSort this)) (spec.mpr ⟨fresh, chain⟩).symm

/-- A relation file of the second tablespace has the number of an unlogged relation of the first. -/
def twoTablespaces : Manifest where
  fileList := [
    { name := "pg_tblspc/1/PG_9.1_201105231/1/16384".toList },
    { name := "pg_tblspc/1/PG_9.1_201105231/1/16384_init".toList },
    { name := "pg_tblspc/2/PG_9.1_201105231/1/16384".toList }]

theorem unloggedRemove_removes_logged :
    (unloggedRemove twoTablespaces 90100 201105231).toOption.map
        (fun result => result.fileList.map (·.name)) =
      some ["pg_tblspc/1/PG_9.1_201105231/1/16384_init".toList] ∧
    manifestFileFindDefault twoTablespaces
        (relationInit "pg_tblspc/2/PG_9.1_201105231/1/16384".toList) = none ∧
    unloggedRemove twoTablespaces 90100 201105231 ≠
      .ok (withoutUnlogged (manifestSort twoTablespaces)
        (relationExp ((pgTablespaceId 90100 201105231).getD []))) := by
  have names : (unloggedRemove twoTablespaces 90100 201105231).toOption.map
        (fun result => result.fileList.map (·.name)) =
      some ["pg_tblspc/1/PG_9.1_201105231/1/16384_init".toList] := by decide +kernel
  refine ⟨names, Option.isNone_iff_eq_none.mp (by decide +kernel), ?_⟩
  intro same
  rw [same] at names
  have kept : (withoutUnlogged (manifestSort twoTablespaces)
      (relationExp ((pgTablespaceId 90100 201105231).getD []))).fileList.map (·.name) ≠
      ["pg_tblspc/1/PG_9.1_201105231/1/16384_init".toList] := by decide +kernel
  exact kept (Option.some.inj names)

def oneDatabase : Manifest where
  fileList := [
    { name := "pg_data/base/1/16384".toList },
    { name := "pg_data/base/1/16384.1".toList },
    { name := "pg_data/base/1/163840".toList },
    { name := "pg_data/base/1/16384_fsm".toList },
    { name := "pg_data/base/1/16384_init".toList },
    { name := "pg_data/base/2/1249".toList },
    { name := "pg_data/base/2/16384".toList }]

theorem unloggedRemove_iff_oneDatabase :
    unloggedRemove oneDatabase 90100 201105231 =
      .ok (withoutUnlogged (manifestSort oneDatabase)
        (relationExp ((pgTablespaceId 90100 201105231).getD []))) :=
  (unloggedRemove_iff oneDatabase (by decide)).mpr ⟨by decide +kernel, by decide +kernel⟩

end Removal

end UnloggedRelations
