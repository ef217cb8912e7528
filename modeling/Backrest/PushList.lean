import Mathlib.Data.Bool.AllAny
import Backrest.ArchiveAsync

/-!
# The list of segments to push

`archivePushProcessList` compares the `.ok` files of the spool with the `.ready`
files of PostgreSQL by one merge. Both lists were sorted with their extensions
on, so a name can come after longer names that start with it: `.partial` goes
before `.ready` but after `.ok`. The comparison is right exactly when every name
with both files is late after the same name in both lists, or in neither.
-/

namespace PushList

open Text LexOrder FileTree Interleave ArchiveAsync AntiMerge

section Names
variable {ext s t : Str}

theorem strCut_append (h : strEndsWith s ext = true) : strCut s ext ++ ext = s := by
  obtain ⟨front, rfl⟩ := List.isSuffixOf_iff_suffix.mp h
  rw [strCut, strSubN, List.drop_zero, List.length_append, Nat.add_sub_cancel, List.take_left]

theorem strCut_of_append (n ext : Str) : strCut (n ++ ext) ext = n := by
  rw [strCut, strSubN, List.drop_zero, List.length_append, Nat.add_sub_cancel, List.take_left]

theorem strEndsWith_append (n ext : Str) : strEndsWith (n ++ ext) ext = true :=
  List.isSuffixOf_iff_suffix.mpr (List.suffix_append n ext)

def namesWith (ext : Str) (names : List Str) : List Str :=
  (strLstSort (names.filter (strEndsWith · ext)) .asc).map (strCut · ext)

theorem mem_namesWith {names : List Str} {n : Str} : n ∈ namesWith ext names ↔ n ++ ext ∈ names := by
  rw [namesWith, List.mem_map]
  constructor
  · rintro ⟨s, hs, rfl⟩
    rw [mem_strLstSort, List.mem_filter] at hs
    rw [strCut_append hs.2]
    exact hs.1
  · intro h
    exact ⟨n ++ ext, mem_strLstSort.mpr (List.mem_filter.mpr ⟨h, strEndsWith_append n ext⟩),
      strCut_of_append n ext⟩

theorem namesWith_sorted {names : List Str} (nodup : names.Nodup) :
    (namesWith ext names).Pairwise (fun a b => a ++ ext < b ++ ext) := by
  have le := strLstSort_asc_sorted (names.filter (strEndsWith · ext))
  have ne : (strLstSort (names.filter (strEndsWith · ext)) .asc).Nodup :=
    (strLstSort_perm _ _).nodup_iff.mpr (nodup.filter _)
  rw [namesWith, List.pairwise_map]
  refine (le.and ne).imp_of_mem ?_
  intro a b ha hb both
  rw [mem_strLstSort, List.mem_filter] at ha hb
  rw [strCut_append ha.2, strCut_append hb.2]
  exact lt_of_le_of_ne both.1 both.2

theorem namesWith_nodup {names : List Str} (nodup : names.Nodup) : (namesWith ext names).Nodup :=
  (namesWith_sorted nodup).imp (fun lt same => by
    rw [same] at lt
    exact lt_irrefl _ lt)

theorem namesWith_congr {names names' : List Str} (nodup : names.Nodup) (nodup' : names'.Nodup)
    (same : ∀ s, s ∈ names ↔ s ∈ names') : namesWith ext names = namesWith ext names' := by
  rw [namesWith, namesWith, strLstSort_congr (nodup.filter _) (nodup'.filter _)]
  intro s
  rw [List.mem_filter, List.mem_filter, same s]

end Names

section Run

/-- The names in the spool `out` directory. -/
def outNames (host : Host) : List Str := host.spool.children [storageSpoolArchiveOut]

/-- The names in the `archive_status` directory. -/
def statusNames (host : Host) (walPath : List Str) : List Str :=
  host.pg.children (walPath ++ [pgPathArchiveStatus])

def okNames (host : Host) : List Str := namesWith statusExtOk (outNames host)

def readyNames (host : Host) (walPath : List Str) : List Str :=
  namesWith statusExtReady (statusNames host walPath)

/-- The `out` directory holds files, and the `archive_status` directory is there. -/
structure SpoolReady (host : Host) (walPath : List Str) : Prop where
  out : host.spool.read [storageSpoolArchiveOut] = none
  files : ∀ file, host.spool.node [storageSpoolArchiveOut, file] ≠ some .dir
  status : host.pg.node (walPath ++ [pgPathArchiveStatus]) = some .dir

theorem mem_outNames {host : Host} {name : Str} :
    name ∈ outNames host ↔ (host.spool.node [storageSpoolArchiveOut, name]).isSome :=
  mem_children

/-- What is left of the `out` directory when some of its files have been removed. -/
def RemovedFrom (host : Host) (gone : Str → Prop) [DecidablePred gone] (host' : Host) : Prop :=
  host'.pg = host.pg ∧ ∀ name, host'.spool.node [storageSpoolArchiveOut, name] =
    if gone name then none else host.spool.node [storageSpoolArchiveOut, name]

theorem run_remove_present {host : Host} {file : Str}
    (there : (host.spool.node [storageSpoolArchiveOut, file]).isSome)
    (files : ∀ file, host.spool.node [storageSpoolArchiveOut, file] ≠ some .dir) :
    ∃ host', (storageRemove storageSpoolArchiveOut file true).run handle host = (.ok ⟨⟩, host') ∧
      RemovedFrom host (· = file) host' := by
  cases hn : host.spool.node [storageSpoolArchiveOut, file] with
  | none =>
    rw [hn] at there
    cases there
  | some n =>
    cases n with
    | dir => exact absurd hn (files file)
    | file content =>
      refine ⟨_, run_storageRemove_file hn true, rfl, fun name => ?_⟩
      change (host.spool.remove _).node _ = _
      rw [node_remove]
      by_cases h : name = file
      · rw [if_pos (by rw [h]), if_pos h]
      · rw [if_neg (by simpa using h), if_neg h]

theorem RemovedFrom.files {host host' : Host} {gone : Str → Prop} [DecidablePred gone]
    (removed : RemovedFrom host gone host')
    (files : ∀ file, host.spool.node [storageSpoolArchiveOut, file] ≠ some .dir) :
    ∀ file, host'.spool.node [storageSpoolArchiveOut, file] ≠ some .dir := by
  intro file
  rw [removed.2 file]
  split
  · intro isDir
    cases isDir
  · exact files file

theorem RemovedFrom.trans {host host₁ host₂ : Host} {gone gone' both : Str → Prop}
    [DecidablePred gone] [DecidablePred gone'] [DecidablePred both]
    (first : RemovedFrom host gone host₁) (second : RemovedFrom host₁ gone' host₂)
    (union : ∀ name, both name ↔ gone name ∨ gone' name) : RemovedFrom host both host₂ := by
  refine ⟨second.1.trans first.1, fun name => ?_⟩
  rw [second.2 name, first.2 name]
  by_cases h' : gone' name
  · rw [if_pos h', if_pos ((union name).mpr (Or.inr h'))]
  · rw [if_neg h']
    by_cases h : gone name
    · rw [if_pos h, if_pos ((union name).mpr (Or.inl h))]
    · rw [if_neg h, if_neg (fun b => ((union name).mp b).elim h h')]

/-- The first loop removes the files that are not ok and collects the others. -/
theorem run_okList {names : List Str} {host : Host} {okList : List Str} (nodup : names.Nodup)
    (there : ∀ name ∈ names, (host.spool.node [storageSpoolArchiveOut, name]).isSome)
    (files : ∀ file, host.spool.node [storageSpoolArchiveOut, file] ≠ some .dir) :
    ∃ host', (names.foldlM okListAdd okList).run handle host =
        (.ok (okList ++ (names.filter (strEndsWith · statusExtOk)).map (strCut · statusExtOk)),
          host') ∧
      RemovedFrom host (fun name => name ∈ names ∧ strEndsWith name statusExtOk = false) host' := by
  induction names generalizing host okList with
  | nil =>
    refine ⟨host, ?_, rfl, fun name => ?_⟩
    · simp
    · simp
  | cons name names ih =>
    obtain ⟨fresh, tail⟩ := List.nodup_cons.mp nodup
    rw [List.foldlM_cons]
    cases he : strEndsWith name statusExtOk with
    | true =>
      obtain ⟨host', run, removed⟩ := @ih host (okList ++ [strCut name statusExtOk]) tail
        (fun n hn => there n (List.mem_cons_of_mem name hn)) files
      have one : (okListAdd okList name).run handle host =
          (.ok (okList ++ [strCut name statusExtOk]), host) := by
        rw [okListAdd, he, if_pos rfl, run_pure]
      refine ⟨host', ?_, removed.1, fun n => ?_⟩
      · rw [run_bind_of_ok one, run]
        simp [he]
      · rw [removed.2 n]
        by_cases hn : n = name
        · subst hn
          simp [he]
        · simp [hn]
    | false =>
      obtain ⟨host₁, first, gone⟩ := run_remove_present (there name List.mem_cons_self) files
      have still : ∀ n ∈ names, (host₁.spool.node [storageSpoolArchiveOut, n]).isSome := by
        intro n hn
        rw [gone.2 n, if_neg (fun same : n = name => fresh (same ▸ hn))]
        exact there n (List.mem_cons_of_mem name hn)
      obtain ⟨host', run, removed⟩ := @ih host₁ okList tail still (gone.files files)
      have one : (okListAdd okList name).run handle host = (.ok okList, host₁) := by
        rw [okListAdd, he, if_neg Bool.false_ne_true, run_bind_of_ok first, run_pure]
      refine ⟨host', ?_, gone.trans removed ?_⟩
      · rw [run_bind_of_ok one, run]
        simp [he]
      · intro n
        by_cases hn : n = name
        · subst hn
          simp [he]
        · simp [hn]

theorem run_okRemove {names : List Str} {host : Host} (nodup : names.Nodup)
    (there : ∀ name ∈ names,
      (host.spool.node [storageSpoolArchiveOut, name ++ statusExtOk]).isSome)
    (files : ∀ file, host.spool.node [storageSpoolArchiveOut, file] ≠ some .dir) :
    ∃ host', (names.foldlM (fun _ file =>
          storageRemove storageSpoolArchiveOut (file ++ statusExtOk) true) PUnit.unit).run handle
        host = (.ok ⟨⟩, host') ∧
      RemovedFrom host (fun name => ∃ n ∈ names, name = n ++ statusExtOk) host' := by
  induction names generalizing host with
  | nil =>
    refine ⟨host, rfl, rfl, fun name => ?_⟩
    simp
  | cons name names ih =>
    obtain ⟨fresh, tail⟩ := List.nodup_cons.mp nodup
    obtain ⟨host₁, first, gone⟩ := run_remove_present (there name List.mem_cons_self) files
    have still : ∀ n ∈ names,
        (host₁.spool.node [storageSpoolArchiveOut, n ++ statusExtOk]).isSome := by
      intro n hn
      have apart : n ++ statusExtOk ≠ name ++ statusExtOk := by
        intro same
        exact fresh (List.append_cancel_right same ▸ hn)
      rw [gone.2, if_neg apart]
      exact there n (List.mem_cons_of_mem name hn)
    obtain ⟨host', run, removed⟩ := ih tail still (gone.files files)
    refine ⟨host', ?_, gone.trans removed ?_⟩
    · rw [List.foldlM_cons, run_bind_of_ok first]
      exact run
    · intro n
      simp [eq_comm]

end Run

/-- The `out` directory is left with the ok files of segments that are ready, and the list has the
segments that are ready and not ok. -/
def Exact (host : Host) (walPath : List Str) (host' : Host) (processList : List Str) : Prop :=
  (∀ name, name ∈ outNames host' ↔ ∃ n, name = n ++ statusExtOk ∧ name ∈ outNames host ∧
    n ++ statusExtReady ∈ statusNames host walPath) ∧
  processList.Nodup ∧
  ∀ n, n ∈ processList ↔
    n ++ statusExtReady ∈ statusNames host walPath ∧ n ++ statusExtOk ∉ outNames host

section Main
variable {host : Host} {walPath : List Str}

theorem run_outList (ready : SpoolReady host walPath) :
    ∃ host₁ names, (storagePathCreate storageSpoolArchiveOut).run handle host = (.ok ⟨⟩, host₁) ∧
      (storageList storageSpoolArchiveOut).run handle host₁ = (.ok names, host₁) ∧
      host₁.pg = host.pg ∧ names.Nodup ∧ (∀ name, name ∈ names ↔ name ∈ outNames host) ∧
      ∀ name, host₁.spool.node [storageSpoolArchiveOut, name] =
        host.spool.node [storageSpoolArchiveOut, name] := by
  have nodes : ∀ name, (host.spool.mkdir [storageSpoolArchiveOut]).node
      [storageSpoolArchiveOut, name] = host.spool.node [storageSpoolArchiveOut, name] := by
    intro name
    rw [node_mkdir, if_neg (by simp)]
  have there : (host.spool.mkdir [storageSpoolArchiveOut]).node [storageSpoolArchiveOut] =
      some .dir := by
    have noFile := ready.out
    rw [Tree.read] at noFile
    rw [node_mkdir]
    cases hn : host.spool.node [storageSpoolArchiveOut] with
    | none => rw [if_pos ⟨rfl, rfl⟩]
    | some n =>
      cases n with
      | dir => rw [if_neg (by simp)]
      | file content =>
        rw [hn] at noFile
        cases noFile
  refine ⟨{ host with spool := host.spool.mkdir [storageSpoolArchiveOut] },
    (host.spool.mkdir [storageSpoolArchiveOut]).children [storageSpoolArchiveOut], ?_, ?_, rfl,
    children_nodup, ?_, nodes⟩
  · rw [storagePathCreate, run_bind_of_ok (run_ask_op (.pathCreate storageSpoolArchiveOut) host),
      handle, ready.out]
    rfl
  · rw [storageList, run_bind_of_ok (run_ask_op (.list storageSpoolArchiveOut) _), handle]
    dsimp only
    rw [listing, there]
    rfl
  · intro name
    rw [mem_outNames, ← nodes name]
    exact mem_children

theorem run_archivePushReadyList (ready : SpoolReady host walPath) {host₁ : Host}
    (same : host₁.pg = host.pg) : (archivePushReadyList walPath).run handle host₁ =
      (.ok (readyNames host walPath), host₁) := by
  rw [archivePushReadyList,
    run_bind_of_ok (run_ask_op (.pgList (walPath ++ [pgPathArchiveStatus])) host₁), handle]
  dsimp only
  rw [listing, same, ready.status]
  rfl

/-- The whole run: an ok file is removed when the merge does not find it among the ready ones. -/
theorem run_archivePushProcessList (ready : SpoolReady host walPath) :
    ∃ host', (archivePushProcessList walPath).run handle host =
        (.ok (strLstMergeAnti (readyNames host walPath) (okNames host)), host') ∧
      ∀ name, name ∈ outNames host' ↔ ∃ n, name = n ++ statusExtOk ∧ name ∈ outNames host ∧
        n ∉ strLstMergeAnti (okNames host) (readyNames host walPath) := by
  obtain ⟨host₁, names, created, listed, pg₁, nodup, same, nodes₁⟩ := run_outList ready
  have files₁ : ∀ file, host₁.spool.node [storageSpoolArchiveOut, file] ≠ some .dir := by
    intro file
    rw [nodes₁]
    exact ready.files file
  have sortedNodup : (strLstSort names .asc).Nodup := (strLstSort_perm _ _).nodup_iff.mpr nodup
  have there : ∀ name ∈ strLstSort names .asc,
      (host₁.spool.node [storageSpoolArchiveOut, name]).isSome := by
    intro name hn
    rw [nodes₁]
    exact mem_outNames.mp ((same name).mp (mem_strLstSort.mp hn))
  obtain ⟨host₂, okRun, removed₂⟩ := @run_okList _ host₁ [] sortedNodup there files₁
  -- The loop collects the sorted names with the extension cut off.
  have okList : ((strLstSort names .asc).filter (strEndsWith · statusExtOk)).map
      (strCut · statusExtOk) = okNames host := by
    rw [strLstSort_filter]
    exact namesWith_congr nodup children_nodup same
  rw [List.nil_append, okList] at okRun
  have mergedOk : ∀ n ∈ strLstMergeAnti (okNames host) (readyNames host walPath),
      n ∈ okNames host := fun n hn => (mergeAnti_sublist _ _).subset hn
  have mergedNodup : (strLstMergeAnti (okNames host) (readyNames host walPath)).Nodup :=
    (mergeAnti_sublist _ _).nodup (namesWith_nodup children_nodup)
  have kept : ∀ n, host₂.spool.node [storageSpoolArchiveOut, n ++ statusExtOk] =
      host.spool.node [storageSpoolArchiveOut, n ++ statusExtOk] := by
    intro n
    rw [removed₂.2, if_neg (by simp [strEndsWith_append]), nodes₁]
  obtain ⟨host₃, removeRun, removed₃⟩ := run_okRemove mergedNodup
    (fun n hn => by
      rw [kept]
      exact mem_outNames.mp (mem_namesWith.mp (mergedOk n hn)))
    (removed₂.files files₁)
  refine ⟨host₃, ?_, fun name => ?_⟩
  · rw [archivePushProcessList, run_bind_of_ok created, run_bind_of_ok listed,
      run_bind_of_ok okRun, run_bind_of_ok (run_archivePushReadyList ready (removed₂.1.trans pg₁)),
      run_bind_of_ok removeRun, run_pure]
  · rw [mem_outNames, removed₃.2]
    cases he : strEndsWith name statusExtOk with
    | true =>
      have cut : name = strCut name statusExtOk ++ statusExtOk := (strCut_append he).symm
      generalize strCut name statusExtOk = n at cut
      subst cut
      rw [kept]
      by_cases merged : n ∈ strLstMergeAnti (okNames host) (readyNames host walPath)
      · rw [if_pos ⟨n, merged, rfl⟩]
        simp only [Option.isSome_none, Bool.false_eq_true, false_iff]
        rintro ⟨m, equal, -, unmerged⟩
        exact unmerged (List.append_cancel_right equal ▸ merged)
      · rw [if_neg]
        · constructor
          · intro h
            exact ⟨n, rfl, mem_outNames.mpr h, merged⟩
          · rintro ⟨m, equal, h, -⟩
            exact mem_outNames.mp h
        · rintro ⟨m, hm, equal⟩
          exact merged (List.append_cancel_right equal ▸ hm)
    | false =>
      have noOk : ∀ n, name ≠ n ++ statusExtOk := by
        rintro n rfl
        rw [strEndsWith_append] at he
        cases he
      rw [if_neg (fun ⟨n, _, equal⟩ => noOk n equal), removed₂.2, nodes₁]
      constructor
      · intro h
        exfalso
        by_cases listedName : name ∈ strLstSort names .asc
        · rw [if_pos ⟨listedName, he⟩] at h
          cases h
        · rw [if_neg (fun both => listedName both.1)] at h
          exact listedName (mem_strLstSort.mpr ((same name).mpr (mem_outNames.mpr h)))
      · rintro ⟨n, equal, -, -⟩
        exact absurd equal (noOk n)

theorem lateRuns_okNames : LateRuns (okNames host) :=
  lateRuns_of_ext (List.all_iff_forall_prop.mp (by decide)) (@namesWith_sorted statusExtOk _ children_nodup)

theorem lateRuns_readyNames : LateRuns (readyNames host walPath) :=
  lateRuns_of_ext (List.all_iff_forall_prop.mp (by decide)) (@namesWith_sorted statusExtReady _ children_nodup)

/-- The list is right exactly when each name with both files is late alike in both lists. -/
theorem archivePushProcessList_exact_iff (ready : SpoolReady host walPath) :
    (∃ processList host', (archivePushProcessList walPath).run handle host =
        (.ok processList, host') ∧ Exact host walPath host' processList) ↔
      ∀ n ∈ okNames host, n ∈ readyNames host walPath →
        late (okNames host) n = late (readyNames host walPath) n := by
  obtain ⟨host', run, left⟩ := run_archivePushProcessList ready
  have okNodup : (okNames host).Nodup := namesWith_nodup children_nodup
  have readyNodup : (readyNames host walPath).Nodup := namesWith_nodup children_nodup
  have removeIff := mem_mergeAnti_iff okNodup readyNodup lateRuns_okNames
    (@lateRuns_readyNames host walPath)
  have listIff := mem_mergeAnti_iff readyNodup okNodup lateRuns_readyNames
    (@lateRuns_okNames host)
  rw [run]
  constructor
  · rintro ⟨processList, host'', same, exact, -, -⟩
    cases same
    refine removeIff.mp (fun n => ?_)
    have ready_iff : n ∈ readyNames host walPath ↔ n ++ statusExtReady ∈ statusNames host walPath :=
      mem_namesWith
    constructor
    · intro merged
      have ok : n ∈ okNames host := (mergeAnti_sublist _ _).subset merged
      refine ⟨ok, fun isReady => ?_⟩
      have kept := (exact (n ++ statusExtOk)).mpr
        ⟨n, rfl, mem_namesWith.mp ok, ready_iff.mp isReady⟩
      obtain ⟨m, same, -, unmerged⟩ := (left _).mp kept
      obtain rfl := List.append_cancel_right same
      exact unmerged merged
    · rintro ⟨ok, notReady⟩
      by_contra unmerged
      obtain ⟨m, same, -, isReady⟩ :=
        (exact (n ++ statusExtOk)).mp ((left _).mpr ⟨n, rfl, mem_namesWith.mp ok, unmerged⟩)
      obtain rfl := List.append_cancel_right same
      exact notReady (ready_iff.mpr isReady)
  · intro alike
    have removeExact := removeIff.mpr alike
    have listExact := listIff.mpr (fun n hr ho => (alike n ho hr).symm)
    refine ⟨_, _, rfl, ?_, (mergeAnti_sublist _ _).nodup readyNodup, fun n => ?_⟩
    · intro name
      rw [left name]
      constructor
      · rintro ⟨n, rfl, inOut, unmerged⟩
        refine ⟨n, rfl, inOut, ?_⟩
        by_contra notReady
        exact unmerged ((removeExact n).mpr
          ⟨mem_namesWith.mpr inOut, fun h => notReady (mem_namesWith.mp h)⟩)
      · rintro ⟨n, rfl, inOut, isReady⟩
        exact ⟨n, rfl, inOut, fun merged =>
          ((removeExact n).mp merged).2 (mem_namesWith.mpr isReady)⟩
    · rw [strLstMergeAnti, listExact n, readyNames, okNames, mem_namesWith, mem_namesWith]

end Main

/-- A spool with the given status files and PostgreSQL with the given `archive_status`. -/
def statusHost (out status : List Str) : Host where
  spool := ⟨([storageSpoolArchiveOut], .dir) ::
    out.map (fun name => ([storageSpoolArchiveOut, name], .file []))⟩
  pg := ⟨([pgPathArchiveStatus], .dir) ::
    status.map (fun name => ([pgPathArchiveStatus, name], .file []))⟩

theorem statusHost_ready (out status : List Str) : SpoolReady (statusHost out status) [] where
  out := by simp [statusHost, Tree.read, FileTree.Tree.node]
  files := by
    intro file there
    have entry := mem_of_lookup there
    simp [statusHost] at entry
  status := by simp [statusHost, FileTree.Tree.node]

/-- Without names that start with another one nothing is late. -/
theorem archivePushProcessList_exact_segments :
    SpoolReady (statusHost ["000000010000000100000001.ok".toList, "000000010000000100000002.error".toList]
      ["000000010000000100000001.ready".toList, "000000010000000100000002.ready".toList]) [] ∧
    ∃ processList host', (archivePushProcessList []).run handle
        (statusHost ["000000010000000100000001.ok".toList, "000000010000000100000002.error".toList]
          ["000000010000000100000001.ready".toList, "000000010000000100000002.ready".toList]) =
        (.ok processList, host') ∧
      Exact (statusHost ["000000010000000100000001.ok".toList, "000000010000000100000002.error".toList]
        ["000000010000000100000001.ready".toList, "000000010000000100000002.ready".toList]) [] host'
        processList :=
  ⟨statusHost_ready _ _,
    (archivePushProcessList_exact_iff (statusHost_ready _ _)).mpr (by decide +kernel)⟩

/-- A partial segment is ready too: the status of the segment is lost and it is pushed again. -/
theorem archivePushProcessList_loses_status :
    ((archivePushProcessList []).run handle (statusHost ["000000010000000100000001.ok".toList]
      ["000000010000000100000001.ready".toList,
        "000000010000000100000001.partial.ready".toList])).1 =
      .ok ["000000010000000100000001.partial".toList, "000000010000000100000001".toList] ∧
    outNames ((archivePushProcessList []).run handle
      (statusHost ["000000010000000100000001.ok".toList]
        ["000000010000000100000001.ready".toList,
          "000000010000000100000001.partial.ready".toList])).2 = [] := by
  decide +kernel

end PushList
