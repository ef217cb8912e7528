import Backrest.ExpireCommand

/-!
# History manifests of several repositories

`removeExpiredHistory` removes from the repository it is called for, but it lists the
history of the default repository. What it removes is described by the listing, and
compared with what the repository itself has.
-/

namespace ExpireHistory

open Text LexOrder BackupCommon BackupInfo FileTree Effects Repository ExpireCommand

section Removed

variable {repoIdx : Nat} {v : World} {change : Storage → Storage} {current : List Str}
  {minLabel : Str}

def historyLabel (historyFile : Str) : Str := ((strLstNewSplit '.' historyFile)[0]?).getD []

/-- A manifest within the cut-off year that is not kept. -/
def fileExpired (current : List Str) (minLabel historyFile : Str) : Bool :=
  decide (historyLabel historyFile ∉ current) && decide (historyLabel historyFile < minLabel)

def fileGone (current : List Str) (minLabel year file : Str) (p : List Str) : Bool :=
  fileExpired current minLabel file && decide (p = historyPath year ++ [file])

def yearGone (listed : Storage) (current : List Str) (minLabel year : Str) (p : List Str) : Bool :=
  if year < strSubN minLabel 0 4 then decide (historyPath year <+: p)
  else if year = strSubN minLabel 0 4 then
    (strLstSort (storageList listed (historyPath year) historyFileName) .desc).any
      (fun file => fileGone current minLabel year file p)
  else false

theorem removeHistoryManifest_removes (year file : Str) :
    RunRemoves repoIdx (fun p => v.config.real && fileGone current minLabel year file p) v
      (removeHistoryManifest repoIdx current minLabel year file) := by
  change RunRemoves repoIdx _ v (if fileExpired current minLabel file = true then
    (do
      logEvent (.removeHistoryManifest repoIdx file)
      storageWrite repoIdx (fun storage => storage.remove (historyPath year ++ [file]))) else pure ⟨⟩)
  by_cases expired : fileExpired current minLabel file = true
  · rw [if_pos expired]
    refine (runRemoves_logEvent _).after (fun _ v' first => ?_)
    rw [← first.only.config]
    refine runRemoves_storageWrite (fun t p => ?_)
    rw [node_remove]
    simp [fileGone, expired]
  · rw [if_neg expired]
    refine (runRemoves_pure _).congr (fun p _ => ?_)
    simp [fileGone, expired]

theorem yearGone_of_gt {listed : Storage} {year : Str} (later : strSubN minLabel 0 4 < year)
    (p : List Str) : yearGone listed current minLabel year p = false := by
  rw [yearGone, if_neg (not_lt_of_gt later), if_neg (ne_of_gt later)]

/-- The loop stops at the first year after the cut-off. -/
theorem removeHistoryYears_of_gt {years : List Str} (later : ∀ year ∈ years, strSubN minLabel 0 4 < year) :
    removeHistoryYears repoIdx current minLabel years = pure ⟨⟩ := by
  cases years with
  | nil => rfl
  | cons year rest =>
    have first := later year List.mem_cons_self
    rw [removeHistoryYears, if_neg (not_lt_of_gt first), if_neg (ne_of_gt first)]

theorem any_yearGone_of_gt {listed : Storage} {years : List Str}
    (later : ∀ year ∈ years, strSubN minLabel 0 4 < year) (p : List Str) :
    years.any (fun year => yearGone listed current minLabel year p) = false := by
  rw [List.any_eq_false]
  intro year mem
  rw [yearGone_of_gt (later year mem)]
  exact Bool.false_ne_true

theorem runRemoves_storageRepo {f : Storage → Command PUnit} {gone : List Str → Bool}
    (run : RunRemoves repoIdx gone v (f (v.storage v.config.repoDefault))) :
    RunRemoves repoIdx gone v (storageRepo >>= f) := by
  obtain ⟨a, v', runs, removes⟩ := run
  exact ⟨a, v', by rw [exec_bind_of_ok (exec_storageRepo v), runs], removes⟩

theorem removeHistoryYears_removes {listed : Storage} {years : List Str}
    (order : years.Pairwise (· < ·))
    (same : ∀ file, (v.storage v.config.repoDefault).node
      (historyPath (strSubN minLabel 0 4) ++ [file]) =
        listed.node (historyPath (strSubN minLabel 0 4) ++ [file])) :
    RunRemoves repoIdx (fun p => v.config.real &&
        years.any (fun year => yearGone listed current minLabel year p)) v
      (removeHistoryYears repoIdx current minLabel years) := by
  induction years generalizing v with
  | nil => exact (runRemoves_pure _).congr (fun p _ => by simp)
  | cons year rest ih =>
    obtain ⟨laterRest, orderRest⟩ := List.pairwise_cons.mp order
    rw [removeHistoryYears]
    by_cases before : year < strSubN minLabel 0 4
    · rw [if_pos before]
      have own (v' : World) (only : Only repoIdx v v') :
          RunRemoves repoIdx (fun p => v.config.real && decide (historyPath year <+: p)) v'
            (storageWrite repoIdx (fun storage => storage.removeTree (historyPath year))) := by
        rw [← only.config]
        refine runRemoves_storageWrite (fun t p => ?_)
        rw [node_removeTree]
        simp only [decide_eq_true_eq]
      have after : ∀ v', Removes repoIdx (fun _ => false) v v' → ∀ v'',
          Removes repoIdx (fun p => v.config.real && decide (historyPath year <+: p)) v' v'' →
          RunRemoves repoIdx (fun p => v.config.real &&
            rest.any (fun year => yearGone listed current minLabel year p)) v''
            (removeHistoryYears repoIdx current minLabel rest) := by
        intro v' first v'' second
        have config := second.only.config.trans first.only.config
        rw [← config]
        apply ih orderRest
        intro file
        rw [config, ← same file]
        by_cases own : v.config.repoDefault = repoIdx
        · have apart : ¬ historyPath year <+: historyPath (strSubN minLabel 0 4) ++ [file] := by
            rintro ⟨more, equal⟩
            exact (ne_of_lt before) (historyPath_inj equal)
          rw [own, second.node, first.node, decide_eq_false apart, Bool.and_false]
          rfl
        · rw [second.only.storage _ own, first.only.storage _ own]
      refine ((runRemoves_logEvent _).after (fun _ v' first =>
        (own v' first.only).bind (fun _ => after v' first))).congr (fun p _ => ?_)
      rw [List.any_cons, yearGone, if_pos before, Bool.and_or_distrib_left]
    · rw [if_neg before]
      by_cases here : year = strSubN minLabel 0 4
      · have later : ∀ other ∈ rest, strSubN minLabel 0 4 < other := by
          rw [← here]
          exact laterRest
        have files : strLstSort (storageList (v.storage v.config.repoDefault) (historyPath year)
              historyFileName) .desc =
            strLstSort (storageList listed (historyPath year) historyFileName) .desc := by
          refine strLstSort_storageList_congr .desc (fun file _ => ?_)
          rw [here, same file]
        rw [if_pos here]
        apply runRemoves_storageRepo
        rw [files, removeHistoryYears_of_gt later]
        have loop : RunRemoves repoIdx
            (fun p => (strLstSort (storageList listed (historyPath year) historyFileName) .desc).any
              (fun file => v.config.real && fileGone current minLabel year file p)) v
            ((strLstSort (storageList listed (historyPath year) historyFileName) .desc).foldlM
              (fun _ file => removeHistoryManifest repoIdx current minLabel year file) PUnit.unit) :=
          RunRemoves.foldlM _ (fun v' only _ file _ => by
            rw [← only.config]
            exact removeHistoryManifest_removes year file) PUnit.unit
        refine (loop.bind (fun _ v' _ => runRemoves_pure _)).congr (fun p _ => ?_)
        rw [List.any_cons, any_yearGone_of_gt later, yearGone, if_neg before, if_pos here]
        cases v.config.real <;> simp
      · rw [if_neg here]
        have later : ∀ other ∈ year :: rest, strSubN minLabel 0 4 < other := by
          intro other mem
          have first : strSubN minLabel 0 4 < year := lt_of_le_of_ne (not_lt.mp before) (Ne.symm here)
          rcases List.mem_cons.mp mem with rfl | mem
          · exact first
          · exact first.trans (laterRest other mem)
        refine (runRemoves_pure _).congr (fun p _ => ?_)
        rw [any_yearGone_of_gt later, Bool.and_false]

end Removed

section Law

variable {repoIdx : Nat} {w : World} {info : InfoBackup}

def retentionLabel (w : World) (retentionHistory : Nat) : Str :=
  backupLabelFormat .full none (w.timeText (w.now - retentionHistory * secPerDay))

def HistoryExpired (w : World) (info : InfoBackup) (repoIdx : Nat) (p : List Str) : Prop :=
  ∃ retentionHistory year rest, (w.config.repo repoIdx).retentionHistory = some retentionHistory ∧
    p = historyPath year ++ rest ∧ historyYearName year = true ∧
    ((w.storage repoIdx).node (historyPath year)).isSome ∧
    (year < strSubN (retentionLabel w retentionHistory) 0 4 ∨
      year = strSubN (retentionLabel w retentionHistory) 0 4 ∧ ∃ file, rest = [file] ∧
        ((w.storage repoIdx).node p).isSome ∧ historyFileName file = true ∧
        historyLabel file ∉ infoBackupDataLabelList info (fun _ => true) ∧
        historyLabel file < retentionLabel w retentionHistory)

/-- The same year directory is in the default repository, and in the cut-off year also the
same file. -/
def ListedByDefault (w : World) (repoIdx : Nat) (p : List Str) : Prop :=
  ∀ retentionHistory year rest, (w.config.repo repoIdx).retentionHistory = some retentionHistory →
    p = historyPath year ++ rest →
    ((w.storage w.config.repoDefault).node (historyPath year)).isSome ∧
    (year = strSubN (retentionLabel w retentionHistory) 0 4 →
      ((w.storage w.config.repoDefault).node p).isSome)

structure RemovesExpired (w : World) (info : InfoBackup) (repoIdx : Nat) : Prop where
  expired : ∀ p, HistoryExpired w info repoIdx p →
    ((exec (removeExpiredHistory info repoIdx) w).2.storage repoIdx).node p = none
  kept : ∀ p, ¬ HistoryExpired w info repoIdx p →
    ((exec (removeExpiredHistory info repoIdx) w).2.storage repoIdx).node p =
      (w.storage repoIdx).node p

theorem removeExpiredHistory_removes {retentionHistory : Nat}
    (set : (w.config.repo repoIdx).retentionHistory = some retentionHistory) :
    RunRemoves repoIdx (fun p => w.config.real &&
        (strLstSort (storageList (w.storage w.config.repoDefault) [storageRepoBackup, backupPathHistory]
          historyYearName) .asc).any (fun year => yearGone (w.storage w.config.repoDefault)
            (infoBackupDataLabelList info (fun _ => true)) (retentionLabel w retentionHistory) year p))
      w (removeExpiredHistory info repoIdx) := by
  have label : exec (minBackupLabel retentionHistory) w =
    (.ok (retentionLabel w retentionHistory), w) := rfl
  have order : (strLstSort (storageList (w.storage w.config.repoDefault)
      [storageRepoBackup, backupPathHistory] historyYearName) .asc).Pairwise (· < ·) := by
    have sorted := strLstSort_asc_sorted (storageList (w.storage w.config.repoDefault)
      [storageRepoBackup, backupPathHistory] historyYearName)
    have once := strLstSort_storageList_nodup (w.storage w.config.repoDefault)
      [storageRepoBackup, backupPathHistory] historyYearName .asc
    exact (sorted.and once).imp (fun both => lt_of_le_of_ne both.1 both.2)
  obtain ⟨a, v', runs, removes⟩ := @removeHistoryYears_removes repoIdx w
    (infoBackupDataLabelList info (fun _ => true)) (retentionLabel w retentionHistory)
    (w.storage w.config.repoDefault) _ order (fun _ => rfl)
  refine ⟨a, v', ?_, removes⟩
  rw [removeExpiredHistory, exec_bind_of_ok (exec_repoOptionIdx repoIdx w), set]
  dsimp only
  rw [exec_bind_of_ok label, exec_bind_of_ok (exec_storageRepo w), runs]

/-- A path that is removed by the listing of the default repository. -/
theorem yearGone_iff {listed : Storage} {current : List Str} {minLabel year : Str} {p : List Str} :
    yearGone listed current minLabel year p = true ↔
      year < strSubN minLabel 0 4 ∧ historyPath year <+: p ∨
      year = strSubN minLabel 0 4 ∧ ∃ file, p = historyPath year ++ [file] ∧
        (listed.node p).isSome ∧ historyFileName file = true ∧ historyLabel file ∉ current ∧
        historyLabel file < minLabel := by
  unfold yearGone
  by_cases before : year < strSubN minLabel 0 4
  · rw [if_pos before, decide_eq_true_eq]
    constructor
    · exact fun below => .inl ⟨before, below⟩
    · rintro (⟨-, below⟩ | ⟨same, -⟩)
      · exact below
      · exact absurd same (ne_of_lt before)
  · rw [if_neg before]
    by_cases here : year = strSubN minLabel 0 4
    · rw [if_pos here, List.any_eq_true]
      constructor
      · rintro ⟨file, mem, gone⟩
        obtain ⟨entry, matched⟩ := mem_storageList.mp (mem_strLstSort.mp mem)
        simp only [fileGone, fileExpired, Bool.and_eq_true, decide_eq_true_eq] at gone
        obtain ⟨⟨notCurrent, older⟩, rfl⟩ := gone
        exact .inr ⟨here, file, rfl, entry, matched, notCurrent, older⟩
      · rintro (⟨earlier, -⟩ | ⟨-, file, rfl, entry, matched, notCurrent, older⟩)
        · exact absurd earlier before
        · refine ⟨file, mem_strLstSort.mpr (mem_storageList.mpr ⟨entry, matched⟩), ?_⟩
          simp only [fileGone, fileExpired, Bool.and_eq_true, decide_eq_true_eq]
          exact ⟨⟨notCurrent, older⟩, trivial⟩
    · rw [if_neg here]
      constructor
      · exact fun gone => absurd gone Bool.false_ne_true
      · rintro (⟨earlier, -⟩ | ⟨same, -⟩)
        · exact absurd earlier before
        · exact absurd same here

theorem removed_iff {retentionHistory : Nat}
    (set : (w.config.repo repoIdx).retentionHistory = some retentionHistory)
    (closed : ∀ year rest, ((w.storage repoIdx).node (historyPath year ++ rest)).isSome →
      ((w.storage repoIdx).node (historyPath year)).isSome) {p : List Str}
    (there : ((w.storage repoIdx).node p).isSome) :
    (strLstSort (storageList (w.storage w.config.repoDefault) [storageRepoBackup, backupPathHistory]
        historyYearName) .asc).any (fun year => yearGone (w.storage w.config.repoDefault)
          (infoBackupDataLabelList info (fun _ => true)) (retentionLabel w retentionHistory) year p) =
        true ↔
      HistoryExpired w info repoIdx p ∧ ListedByDefault w repoIdx p := by
  rw [List.any_eq_true]
  constructor
  · rintro ⟨year, mem, gone⟩
    obtain ⟨listedYear, isYear⟩ := mem_storageList.mp (mem_strLstSort.mp mem)
    change ((w.storage w.config.repoDefault).node (historyPath year)).isSome = true at listedYear
    have below : ∃ rest, p = historyPath year ++ rest := by
      rcases yearGone_iff.mp gone with ⟨-, rest, rfl⟩ | ⟨-, file, rfl, -⟩
      · exact ⟨rest, rfl⟩
      · exact ⟨[file], rfl⟩
    obtain ⟨rest, rfl⟩ := below
    have ownYear := closed year rest there
    rcases yearGone_iff.mp gone with ⟨before, -⟩ | ⟨here, file, equal, entry, matched, notCurrent, older⟩
    · refine ⟨⟨retentionHistory, year, rest, set, rfl, isYear, ownYear, .inl before⟩, ?_⟩
      intro days year' rest' set' same
      cases set.symm.trans set'
      cases historyPath_inj same
      exact ⟨listedYear, fun here => absurd here (ne_of_lt before)⟩
    · have isFile : rest = [file] := List.append_cancel_left equal
      refine ⟨⟨retentionHistory, year, rest, set, rfl, isYear, ownYear,
        .inr ⟨here, file, isFile, there, matched, notCurrent, older⟩⟩, ?_⟩
      intro days year' rest' set' same
      cases historyPath_inj same
      exact ⟨listedYear, fun _ => entry⟩
  · rintro ⟨⟨days, year, rest, set', rfl, isYear, -, expired⟩, listed⟩
    cases set.symm.trans set'
    obtain ⟨listedYear, listedFile⟩ := listed retentionHistory year rest set rfl
    refine ⟨year, mem_strLstSort.mpr (mem_storageList.mpr ⟨listedYear, isYear⟩), ?_⟩
    rw [yearGone_iff]
    rcases expired with before | ⟨here, file, rfl, -, matched, notCurrent, older⟩
    · exact .inl ⟨before, List.prefix_append _ _⟩
    · exact .inr ⟨here, file, rfl, listedFile here, matched, notCurrent, older⟩

/-- The law holds for a repository when the default repository has all of its expired
history, and this is not a dry run. -/
theorem removeExpiredHistory_iff
    (closed : ∀ year rest, ((w.storage repoIdx).node (historyPath year ++ rest)).isSome →
      ((w.storage repoIdx).node (historyPath year)).isSome) :
    RemovesExpired w info repoIdx ↔
      ∀ p, HistoryExpired w info repoIdx p → ((w.storage repoIdx).node p).isSome →
        w.config.real = true ∧ ListedByDefault w repoIdx p := by
  cases set : (w.config.repo repoIdx).retentionHistory with
  | none =>
    have none_ : ∀ p, ¬ HistoryExpired w info repoIdx p := by
      rintro p ⟨days, -, -, some_, -⟩
      cases set.symm.trans some_
    have run : exec (removeExpiredHistory info repoIdx) w = (.ok ⟨⟩, w) := by
      rw [removeExpiredHistory, exec_bind_of_ok (exec_repoOptionIdx repoIdx w), set]
      rfl
    constructor
    · exact fun _ p expired => absurd expired (none_ p)
    · intro _
      constructor
      · exact fun p expired => absurd expired (none_ p)
      · intro p _
        rw [run]
  | some retentionHistory =>
    obtain ⟨a, v', run, removes⟩ := @removeExpiredHistory_removes repoIdx w info _ set
    have node := removes.node
    constructor
    · intro law p expired there
      have gone := law.expired p expired
      rw [run, node] at gone
      split at gone
      · rename_i both
        rw [Bool.and_eq_true, removed_iff set closed there] at both
        exact ⟨both.1, both.2.2⟩
      · rw [gone] at there
        cases there
    · intro listed
      constructor
      · intro p expired
        rw [run, node]
        split
        · rfl
        · rename_i neither
          by_contra there
          have present := Option.isSome_iff_ne_none.mpr there
          apply neither
          rw [Bool.and_eq_true, removed_iff set closed present]
          exact ⟨(listed p expired present).1, expired, (listed p expired present).2⟩
      · intro p kept
        rw [run, node]
        split
        · rename_i both
          by_contra differs
          have present : ((w.storage repoIdx).node p).isSome := by
            rw [Option.isSome_iff_ne_none]
            exact fun none => differs none.symm
          rw [Bool.and_eq_true, removed_iff set closed present] at both
          exact kept both.2.1
        · rfl

theorem listedByDefault_of_same (same : w.storage w.config.repoDefault = w.storage repoIdx)
    {p : List Str} (expired : HistoryExpired w info repoIdx p)
    (there : ((w.storage repoIdx).node p).isSome) : ListedByDefault w repoIdx p := by
  obtain ⟨days, year, rest, set, rfl, -, ownYear, -⟩ := expired
  intro days' year' rest' set' equal
  cases historyPath_inj equal
  rw [same]
  exact ⟨ownYear, fun _ => there⟩

end Law

/-! ## A second repository -/

def historyConfig : Config where
  repoTotal := 2
  repo := fun _ => { retentionHistory := some 30 }

/-- The second repository has a year of history that has expired. -/
def historyStorage : Storage :=
  ⟨[(historyPath "2019".toList, .dir),
    (historyPath "2019".toList ++ ["20190101-000000F.manifest.gz".toList], .file .other)]⟩

def historyWorld (first : Storage) : World where
  now := 0
  timeText := fun _ => "20200601-000000".toList
  config := historyConfig
  storage := fun repoIdx => if repoIdx = 0 then first else historyStorage

theorem historyStorage_closed (year : Str) (rest : List Str)
    (there : (historyStorage.node (historyPath year ++ rest)).isSome) :
    (historyStorage.node (historyPath year)).isSome := by
  obtain ⟨e, mem, equal⟩ := lookup_isSome.mp there
  rcases List.mem_cons.mp mem with rfl | mem
  · have same : historyPath "2019".toList ++ [] = historyPath year ++ rest := equal
    cases historyPath_inj same
    rfl
  · obtain rfl := List.mem_singleton.mp mem
    have same : historyPath "2019".toList ++ ["20190101-000000F.manifest.gz".toList] =
        historyPath year ++ rest := equal
    cases historyPath_inj same
    rfl

/-- Repositories with the same history are both cleaned. -/
theorem removeExpiredHistory_same :
    RemovesExpired (historyWorld historyStorage) ⟨⟨[], 0⟩, []⟩ 1 := by
  apply (@removeExpiredHistory_iff 1 (historyWorld historyStorage) ⟨⟨[], 0⟩, []⟩
    historyStorage_closed).mpr
  intro p expired there
  have same : (historyWorld historyStorage).storage (historyWorld historyStorage).config.repoDefault =
      (historyWorld historyStorage).storage 1 := rfl
  exact ⟨rfl, listedByDefault_of_same same expired there⟩

/-- The year directory of the second repository stays, since the first one has none. -/
theorem removeExpiredHistory_keeps_second :
    HistoryExpired (historyWorld ⟨[]⟩) ⟨⟨[], 0⟩, []⟩ 1 (historyPath "2019".toList) ∧
      ¬ RemovesExpired (historyWorld ⟨[]⟩) ⟨⟨[], 0⟩, []⟩ 1 := by
  have expired : HistoryExpired (historyWorld ⟨[]⟩) ⟨⟨[], 0⟩, []⟩ 1 (historyPath "2019".toList) :=
    ⟨30, "2019".toList, [], rfl, rfl, by decide, rfl, .inl (by decide)⟩
  refine ⟨expired, fun law => ?_⟩
  have gone := law.expired _ expired
  have stays : (((exec (removeExpiredHistory ⟨⟨[], 0⟩, []⟩ 1) (historyWorld ⟨[]⟩)).2.storage 1).node
      (historyPath "2019".toList)).isSome = true := by decide
  rw [gone] at stays
  cases stays

end ExpireHistory
