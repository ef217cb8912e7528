import Mathlib.Data.Finset.Card
import Backrest.AdjacentRuns
import Backrest.Verify
import Backrest.WalSegment

/-!
# Ranges of WAL segments

Verify collects the segments of an archive id into ranges while it lists the directories.
Files that PostgreSQL ignores and files of one segment are taken out of a list while it is
walked. The ranges are the maximal runs of consecutive segments among those that stay, for
any directories, and a result is added to the range that contains its segment.
-/

namespace VerifyRange

open Text BackupCommon LexOrder AdjacentRuns ArchiveAsync WalSegment Verify

structure PgWal where
  version : Nat
  size : Nat

structure VerifyWalRange where
  stop : Str
  start : Str
  invalidFileList : List VerifyInvalidFile := []
  deriving DecidableEq

/-- The ranges and whether one of them is continued. That is always the last one. -/
structure WalRanges where
  walRangeList : List VerifyWalRange
  walRange : Bool

def pgVersion92 : Nat := 90200

def walSegmentOf (file : Str) : Str := strSubN file 0 24

/-- PostgreSQL up to 9.2 does not write a segment that ends in FF. -/
def skipped (walInfo : PgWal) (walSegment : Str) : Bool :=
  decide (walInfo.version ≤ pgVersion92) && strEndsWith walSegment ['F', 'F']

def walRangeNew (walSegment : Str) : VerifyWalRange where
  stop := walSegment
  start := walSegment

def rangeAdd (walInfo : PgWal) (ranges : WalRanges) (walSegment : Str) : WalRanges where
  walRangeList :=
    match ranges.walRangeList.getLast? with
    | none => ranges.walRangeList ++ [walRangeNew walSegment]
    | some walRange =>
      if ranges.walRange = false ∨
          walSegmentNext walRange.stop walInfo.size walInfo.version ≠ walSegment then
        ranges.walRangeList ++ [walRangeNew walSegment]
      else
        -- If the next WAL is the appropriate distance away, then there is no gap
        ranges.walRangeList.dropLast ++ [{ walRange with stop := walSegment }]
  walRange := true

/-- The loop from one index of the list on: the files that stay, the ranges and the errors. -/
def walkFiles (walInfo : PgWal) (files : List Str) (ranges : WalRanges) (jobErrorTotal : Nat) :
    List Str × WalRanges × Nat :=
  match files with
  | [] => ([], ranges, jobErrorTotal)
  | file :: rest =>
    let walSegment := walSegmentOf file
    if skipped walInfo walSegment = true then walkFiles walInfo rest ranges (jobErrorTotal + 1)
    else if rest.head?.map walSegmentOf = some walSegment then
      -- Remove all duplicates of this WAL, including this WAL, from the list
      walkFiles walInfo (rest.dropWhile (walSegmentOf · == walSegment)) ranges (jobErrorTotal + 1)
    else
      let (walFileList, ranges, jobErrorTotal) :=
        walkFiles walInfo rest (rangeAdd walInfo ranges walSegment) jobErrorTotal
      (file :: walFileList, ranges, jobErrorTotal)
termination_by files.length
decreasing_by
  · exact Nat.lt_add_one _
  · exact Nat.lt_add_one_of_le (List.dropWhile_suffix _).length_le
  · exact Nat.lt_add_one _

structure VerifyArchiveResult where
  pgWalInfo : PgWal
  walRangeList : List VerifyWalRange := []

def sameTimeline (walRangeList : List VerifyWalRange) (walFile : Str) : Bool :=
  match walRangeList.getLast? with
  | none => false
  | some last => strSubN last.stop 0 8 == strSubN (walSegmentOf walFile) 0 8

def verifyCreateArchiveIdRange (archiveIdResult : VerifyArchiveResult) (walFileList : List Str)
    (jobErrorTotal : Nat) : Except Error (List Str × VerifyArchiveResult × Nat) :=
  match walFileList with
  | [] => .error (lstGetError 0 0)
  | walFile :: _ =>
    let ranges :=
      ⟨archiveIdResult.walRangeList, sameTimeline archiveIdResult.walRangeList walFile⟩
    let (walFileList, ranges, jobErrorTotal) :=
      walkFiles archiveIdResult.pgWalInfo walFileList ranges jobErrorTotal
    .ok (walFileList, { archiveIdResult with walRangeList := ranges.walRangeList }, jobErrorTotal)

def verifyAddInvalidWalFile (fileResult : VerifyResult) (fileName walSegment : Str) :
    List VerifyWalRange → List VerifyWalRange
  | [] => []
  | walRange :: walRangeList =>
    -- Since ranges are sorted by stop file in ascending order the first one found is the range
    if walSegment ≤ walRange.stop then
      { walRange with
        invalidFileList := walRange.invalidFileList ++ [⟨fileName, fileResult⟩] } :: walRangeList
    else
      walRange :: verifyAddInvalidWalFile fileResult fileName walSegment walRangeList

/-! ## The files that stay -/

section Kept

variable {walInfo : PgWal}

def occurs (files : List Str) (walSegment : Str) : Nat := (files.map walSegmentOf).count walSegment

def kept (walInfo : PgWal) (files : List Str) : List Str :=
  files.filter fun file =>
    !skipped walInfo (walSegmentOf file) && occurs files (walSegmentOf file) == 1

def duplicated (walInfo : PgWal) (files : List Str) : Finset Str :=
  ((files.map walSegmentOf).filter fun walSegment =>
    !skipped walInfo walSegment && decide (1 < occurs files walSegment)).toFinset

def skippedTotal (walInfo : PgWal) (files : List Str) : Nat :=
  (files.filter fun file => skipped walInfo (walSegmentOf file)).length

variable {files rest : List Str} {walSegment file : Str}

theorem mem_kept : file ∈ kept walInfo files ↔
    file ∈ files ∧ skipped walInfo (walSegmentOf file) = false ∧
      occurs files (walSegmentOf file) = 1 := by
  simp [kept]

theorem mem_duplicated :
    walSegment ∈ duplicated walInfo files ↔
      skipped walInfo walSegment = false ∧ 1 < occurs files walSegment := by
  rw [duplicated, List.mem_toFinset, List.mem_filter, Bool.and_eq_true, Bool.not_eq_true',
    decide_eq_true_eq]
  constructor
  · exact fun ⟨_, stays, more⟩ => ⟨stays, more⟩
  · intro ⟨stays, more⟩
    exact ⟨List.one_le_count_iff.mp more.le, stays, more⟩

theorem occurs_append (front back : List Str) (walSegment : Str) :
    occurs (front ++ back) walSegment = occurs front walSegment + occurs back walSegment := by
  rw [occurs, List.map_append, List.count_append]
  rfl

theorem occurs_eq_zero (other : ∀ file ∈ files, walSegmentOf file ≠ walSegment) :
    occurs files walSegment = 0 := by
  rw [occurs, List.count_eq_zero, List.mem_map]
  rintro ⟨file, mem, same⟩
  exact other file mem same

theorem occurs_eq_length (same : ∀ file ∈ files, walSegmentOf file = walSegment) :
    occurs files walSegment = files.length := by
  rw [occurs, List.count_eq_length.mpr, List.length_map]
  intro s mem
  obtain ⟨file, isFile, rfl⟩ := List.mem_map.mp mem
  exact (same file isFile).symm

/-- A skipped file has no part in which other files stay. -/
theorem kept_skipped (skip : skipped walInfo (walSegmentOf file) = true) :
    kept walInfo (file :: rest) = kept walInfo rest := by
  rw [kept, List.filter_cons_of_neg (by simp [skip])]
  refine List.filter_congr fun other _ => ?_
  cases stays : skipped walInfo (walSegmentOf other) with
  | true => rfl
  | false =>
    have apart : walSegmentOf file ≠ walSegmentOf other := by
      intro same
      rw [same, stays] at skip
      cases skip
    rw [occurs, List.map_cons, List.count_cons_of_ne apart]
    rfl

theorem duplicated_skipped (skip : skipped walInfo (walSegmentOf file) = true) :
    duplicated walInfo (file :: rest) = duplicated walInfo rest := by
  ext walSegment
  rw [mem_duplicated, mem_duplicated]
  refine and_congr_right fun stays => ?_
  have apart : walSegmentOf file ≠ walSegment := by
    rintro rfl
    rw [stays] at skip
    cases skip
  rw [occurs, List.map_cons, List.count_cons_of_ne apart]
  rfl

section Group

variable {run rest : List Str} {walSegment : Str} (stays : skipped walInfo walSegment = false)
  (same : ∀ file ∈ run, walSegmentOf file = walSegment)
  (other : ∀ file ∈ rest, walSegmentOf file ≠ walSegment)

include other

theorem occurs_rest {file : Str} (mem : file ∈ rest) (same : ∀ file ∈ run, walSegmentOf file = walSegment) :
    occurs (run ++ rest) (walSegmentOf file) = occurs rest (walSegmentOf file) := by
  have none : occurs run (walSegmentOf file) = 0 :=
    occurs_eq_zero fun first isFirst eq => other file mem (by rw [← eq, same first isFirst])
  rw [occurs_append, none, Nat.zero_add]

include same

theorem occurs_run : occurs (run ++ rest) walSegment = run.length := by
  rw [occurs_append, occurs_eq_length same, occurs_eq_zero other, Nat.add_zero]

include stays

/-- All files of a segment are at one place of a list. -/
theorem kept_group : kept walInfo (run ++ rest) =
    (if run.length = 1 then run else []) ++ kept walInfo rest := by
  rw [kept, List.filter_append]
  congr 1
  · split
    next single =>
      refine List.filter_eq_self.mpr fun file mem => ?_
      rw [same file mem, stays, occurs_run same other, single]
      rfl
    next more =>
      refine List.filter_eq_nil_iff.mpr fun file mem => ?_
      rw [same file mem, stays, occurs_run same other]
      simp [more]
  · refine List.filter_congr fun file mem => ?_
    rw [occurs_rest other mem same]

theorem duplicated_group : duplicated walInfo (run ++ rest) =
    if 1 < run.length then insert walSegment (duplicated walInfo rest)
    else duplicated walInfo rest := by
  have own : walSegment ∉ duplicated walInfo rest := by
    rw [mem_duplicated, occurs_eq_zero other]
    omega
  ext s
  by_cases this : s = walSegment
  · subst this
    rw [mem_duplicated, occurs_run same other]
    split
    next more => simp [stays, more]
    next few => simp [few, own]
  · have none : occurs run s = 0 := occurs_eq_zero fun file mem eq => this (by rw [← eq, same file mem])
    have unchanged : s ∈ duplicated walInfo (run ++ rest) ↔ s ∈ duplicated walInfo rest := by
      rw [mem_duplicated, mem_duplicated, occurs_append, none, Nat.zero_add]
    rw [unchanged]
    split
    · simp [this]
    · rfl

omit other in
theorem skippedTotal_group : skippedTotal walInfo (run ++ rest) = skippedTotal walInfo rest := by
  rw [skippedTotal, List.filter_append, List.filter_eq_nil_iff.mpr, List.nil_append, skippedTotal]
  intro file mem
  rw [same file mem, stays]
  decide

end Group

/-- The errors the loop counts for a list. -/
def errorTotal (walInfo : PgWal) (files : List Str) : Nat :=
  skippedTotal walInfo files + (duplicated walInfo files).card

theorem errorTotal_skipped (skip : skipped walInfo (walSegmentOf file) = true) :
    errorTotal walInfo (file :: rest) = errorTotal walInfo rest + 1 := by
  rw [errorTotal, errorTotal, duplicated_skipped skip, skippedTotal,
    List.filter_cons_of_pos (by exact skip), List.length_cons, skippedTotal]
  omega

theorem errorTotal_group {run : List Str} (stays : skipped walInfo walSegment = false)
    (same : ∀ file ∈ run, walSegmentOf file = walSegment)
    (other : ∀ file ∈ rest, walSegmentOf file ≠ walSegment) :
    errorTotal walInfo (run ++ rest) = errorTotal walInfo rest + if 1 < run.length then 1 else 0 := by
  have own : walSegment ∉ duplicated walInfo rest := by
    rw [mem_duplicated, occurs_eq_zero other]
    omega
  rw [errorTotal, errorTotal, skippedTotal_group stays same, duplicated_group stays same other]
  split
  · rw [Finset.card_insert_of_notMem own]
    omega
  · omega

theorem dropWhile_other (sorted : files.Pairwise (fun a b => walSegmentOf a ≤ walSegmentOf b))
    (least : ∀ file ∈ files, walSegment ≤ walSegmentOf file) :
    ∀ file ∈ files.dropWhile (walSegmentOf · == walSegment), walSegmentOf file ≠ walSegment := by
  induction files with
  | nil => exact fun file mem => by cases mem
  | cons first files ih =>
    rw [List.pairwise_cons] at sorted
    by_cases same : walSegmentOf first = walSegment
    · rw [List.dropWhile_cons_of_pos (by rw [same, beq_self_eq_true])]
      exact ih sorted.2 fun file mem => least file (List.mem_cons_of_mem _ mem)
    · rw [List.dropWhile_cons_of_neg (by rwa [beq_iff_eq])]
      have less := lt_of_le_of_ne (least first List.mem_cons_self) (Ne.symm same)
      intro file mem
      rcases List.mem_cons.mp mem with rfl | mem
      · exact same
      · exact (less.trans_le (sorted.1 file mem)).ne'

/-- The loop keeps the files of single segments, adds these to the ranges and counts the rest. -/
theorem walkFiles_eq (ranges : WalRanges) (jobErrorTotal : Nat)
    (sorted : files.Pairwise (fun a b => walSegmentOf a ≤ walSegmentOf b)) :
    walkFiles walInfo files ranges jobErrorTotal =
      (kept walInfo files, ((kept walInfo files).map walSegmentOf).foldl (rangeAdd walInfo) ranges,
        jobErrorTotal + errorTotal walInfo files) := by
  fun_induction walkFiles walInfo files ranges jobErrorTotal with
  | case1 => rfl
  | case2 ranges jobErrorTotal file rest walSegment skip ih =>
    rw [ih (List.pairwise_cons.mp sorted).2, kept_skipped skip, errorTotal_skipped skip]
    congr 2
    omega
  | case3 ranges jobErrorTotal file rest walSegment stays next ih =>
    rw [Bool.not_eq_true] at stays
    rw [List.pairwise_cons] at sorted
    have other := dropWhile_other sorted.2 sorted.1
    have same : ∀ g ∈ file :: rest.takeWhile (walSegmentOf · == walSegment), walSegmentOf g = walSegment := by
      intro g mem
      rcases List.mem_cons.mp mem with rfl | mem
      · rfl
      · exact beq_iff_eq.mp (List.all_eq_true.mp List.all_takeWhile g mem)
    have split : file :: rest = (file :: rest.takeWhile (walSegmentOf · == walSegment)) ++
        rest.dropWhile (walSegmentOf · == walSegment) := by
      rw [List.cons_append, List.takeWhile_append_dropWhile]
    have more : 1 < (file :: rest.takeWhile (walSegmentOf · == walSegment)).length := by
      cases rest with
      | nil => cases next
      | cons g rest =>
        have first : walSegmentOf g = walSegment := by simpa using next
        rw [List.takeWhile_cons_of_pos (by rw [first, beq_self_eq_true])]
        simp
    rw [ih (sorted.2.sublist (List.dropWhile_suffix _).sublist), split, kept_group stays same other,
      errorTotal_group stays same other, if_pos more, if_neg more.ne', List.nil_append, Nat.add_assoc,
      Nat.add_comm 1]
  | case4 ranges jobErrorTotal file rest walSegment stays next walFileList ranges' total step ih =>
    rw [Bool.not_eq_true] at stays
    rw [List.pairwise_cons] at sorted
    have other : ∀ g ∈ rest, walSegmentOf g ≠ walSegment := by
      cases rest with
      | nil => exact fun g mem => by cases mem
      | cons g rest =>
        have apart : walSegmentOf g ≠ walSegment := by simpa using next
        have whole := dropWhile_other sorted.2 sorted.1
        rwa [List.dropWhile_cons_of_neg (by rwa [beq_iff_eq])] at whole
    have same : ∀ g ∈ [file], walSegmentOf g = walSegment := by
      intro g mem
      rw [List.mem_singleton.mp mem]
    have split : file :: rest = [file] ++ rest := rfl
    rw [ih sorted.2] at step
    obtain ⟨rfl, rfl, rfl⟩ := Prod.mk.injEq .. ▸ step
    rw [split, kept_group stays same other, errorTotal_group stays same other]
    rfl

end Kept

/-! ## The ranges -/

section Ranges

variable {walInfo : PgWal} {segments : List Str} {invalid : List (Str × VerifyInvalidFile)}

/-- One segment is the next of another on its timeline. -/
def follows (walInfo : PgWal) (a b : Str) : Bool :=
  strSubN a 0 8 == strSubN b 0 8 && walSegmentNext a walInfo.size walInfo.version == b

def rangeSpan (walRange : VerifyWalRange) : Span Str := ⟨walRange.start, walRange.stop⟩

def Within (walSegment : Str) (walRange : VerifyWalRange) : Prop :=
  walRange.start ≤ walSegment ∧ walSegment ≤ walRange.stop

instance (walSegment : Str) (walRange : VerifyWalRange) : Decidable (Within walSegment walRange) :=
  inferInstanceAs (Decidable (_ ∧ _))

/-- The results of segments within a range, in the order they arrived. -/
def invalidWithin (invalid : List (Str × VerifyInvalidFile)) (walRange : VerifyWalRange) :
    List VerifyInvalidFile :=
  (invalid.filter fun item => decide (Within item.1 walRange)).map (·.2)

structure Collected (walInfo : PgWal) (segments : List Str)
    (invalid : List (Str × VerifyInvalidFile)) (walRangeList : List VerifyWalRange) : Prop where
  runs : walRangeList.map rangeSpan = spans (follows walInfo) segments
  sorted : segments.Pairwise (· < ·)
  known : ∀ item ∈ invalid, item.1 ∈ segments
  results : ∀ walRange ∈ walRangeList, walRange.invalidFileList = invalidWithin invalid walRange

def Continues (ranges : WalRanges) (timeline : Str) : Prop :=
  ranges.walRange = true ↔
    ∃ last, ranges.walRangeList.getLast? = some last ∧ strSubN last.stop 0 8 = timeline

variable {walSegment : Str} {ranges : WalRanges}

theorem invalidWithin_new (above : ∀ item ∈ invalid, item.1 < walSegment) :
    invalidWithin invalid (walRangeNew walSegment) = [] := by
  rw [invalidWithin, List.filter_eq_nil_iff.mpr, List.map_nil]
  intro item mem
  rw [decide_eq_true_eq]
  exact fun within => (above item mem).not_ge within.1

theorem rangeAdd_continues (walSegment : Str) :
    Continues (rangeAdd walInfo ranges walSegment) (strSubN walSegment 0 8) := by
  refine iff_of_true rfl ?_
  rw [rangeAdd]
  dsimp only
  split
  · exact ⟨_, List.getLast?_concat, rfl⟩
  · split
    · exact ⟨_, List.getLast?_concat, rfl⟩
    · exact ⟨_, List.getLast?_concat, rfl⟩

theorem rangeAdd_runs (continues : Continues ranges (strSubN walSegment 0 8)) :
    (rangeAdd walInfo ranges walSegment).walRangeList.map rangeSpan =
      extend (follows walInfo) (ranges.walRangeList.map rangeSpan) walSegment := by
  rw [rangeAdd, extend, List.getLast?_map]
  cases isLast : ranges.walRangeList.getLast? with
  | none => rw [List.map_append]; rfl
  | some last =>
    have current : ranges.walRange = true ↔ strSubN last.stop 0 8 = strSubN walSegment 0 8 := by
      rw [Continues, isLast] at continues
      simpa using continues
    have related : follows walInfo (rangeSpan last).stop walSegment = true ↔
        ¬(ranges.walRange = false ∨
          walSegmentNext last.stop walInfo.size walInfo.version ≠ walSegment) := by
      rw [follows, Bool.and_eq_true, beq_iff_eq, beq_iff_eq, not_or, Bool.not_eq_false, not_not,
        current]
      rfl
    dsimp only [Option.map_some]
    by_cases next : follows walInfo (rangeSpan last).stop walSegment = true
    · rw [if_pos next, if_neg (related.mp next), List.map_append, List.map_dropLast]
      rfl
    · rw [if_neg next, if_pos (not_not.mp (mt related.mpr next)), List.map_append]
      rfl

/-- A segment after all others keeps the results of each range. -/
theorem rangeAdd_collected (collected : Collected walInfo segments invalid ranges.walRangeList)
    (continues : Continues ranges (strSubN walSegment 0 8)) (above : ∀ s ∈ segments, s < walSegment) :
    Collected walInfo (segments ++ [walSegment]) invalid
      (rangeAdd walInfo ranges walSegment).walRangeList := by
  have before : ∀ item ∈ invalid, item.1 < walSegment :=
    fun item mem => above _ (collected.known item mem)
  constructor
  · rw [rangeAdd_runs continues, collected.runs, spans_concat]
  · refine List.pairwise_append.mpr ⟨collected.sorted, List.pairwise_singleton _ _, ?_⟩
    intro s mem t isNew
    rw [List.mem_singleton.mp isNew]
    exact above s mem
  · exact fun item mem => List.mem_append_left _ (collected.known item mem)
  · have added : ∀ walRange ∈ ranges.walRangeList ++ [walRangeNew walSegment],
        walRange.invalidFileList = invalidWithin invalid walRange := by
      intro walRange mem
      rcases List.mem_append.mp mem with mem | mem
      · exact collected.results walRange mem
      · rw [List.mem_singleton.mp mem, invalidWithin_new before]
        rfl
    rw [rangeAdd]
    dsimp only
    split
    · exact added
    next last isLast =>
      split
      · exact added
      · intro walRange mem
        rcases List.mem_append.mp mem with mem | mem
        · exact collected.results walRange (List.mem_of_mem_dropLast mem)
        · rw [List.mem_singleton.mp mem]
          refine (collected.results last (List.mem_of_getLast? isLast)).trans ?_
          refine congrArg (List.map _) (List.filter_congr fun item isItem => ?_)
          -- the segments with a result end no later than the range that is continued
          have end_ : (spans (follows walInfo) segments).getLast? = some (rangeSpan last) := by
            rw [← collected.runs, List.getLast?_map, isLast]
            rfl
          have high := le_last_stop collected.sorted (collected.known item isItem) end_
          refine decide_eq_decide.mpr (and_congr_right fun _ => ?_)
          exact iff_of_true high (before item isItem).le

theorem foldl_rangeAdd {timeline : Str} {added : List Str}
    (collected : Collected walInfo segments invalid ranges.walRangeList)
    (continues : Continues ranges timeline) (same : ∀ s ∈ added, strSubN s 0 8 = timeline)
    (sorted : (segments ++ added).Pairwise (· < ·)) :
    Collected walInfo (segments ++ added) invalid
      (added.foldl (rangeAdd walInfo) ranges).walRangeList := by
  induction added generalizing segments ranges with
  | nil => rwa [List.append_nil]
  | cons walSegment added ih =>
    have own := same walSegment List.mem_cons_self
    have above : ∀ s ∈ segments, s < walSegment :=
      fun s mem => (List.pairwise_append.mp sorted).2.2 s mem walSegment List.mem_cons_self
    rw [← own] at continues
    have step := rangeAdd_collected collected continues above
    rw [List.append_cons] at sorted ⊢
    refine ih step ?_ (fun s mem => same s (List.mem_cons_of_mem _ mem)) sorted
    rw [← own]
    exact rangeAdd_continues walSegment

theorem verifyAddInvalidWalFile_runs (fileResult : VerifyResult) (fileName walSegment : Str)
    (walRangeList : List VerifyWalRange) :
    (verifyAddInvalidWalFile fileResult fileName walSegment walRangeList).map rangeSpan =
      walRangeList.map rangeSpan := by
  induction walRangeList with
  | nil => rfl
  | cons walRange walRangeList ih =>
    rw [verifyAddInvalidWalFile]
    split
    · rfl
    · rw [List.map_cons, ih, List.map_cons]

theorem verifyAddInvalidWalFile_split (fileResult : VerifyResult) (fileName : Str)
    {front back : List VerifyWalRange} {walRange : VerifyWalRange}
    (before : ∀ p ∈ front, p.stop < walSegment) (high : walSegment ≤ walRange.stop) :
    verifyAddInvalidWalFile fileResult fileName walSegment (front ++ walRange :: back) =
      front ++ { walRange with
        invalidFileList := walRange.invalidFileList ++ [⟨fileName, fileResult⟩] } :: back := by
  induction front with
  | nil => rw [List.nil_append, verifyAddInvalidWalFile, if_pos high, List.nil_append]
  | cons p front ih =>
    rw [List.cons_append, verifyAddInvalidWalFile,
      if_neg (before p List.mem_cons_self).not_ge,
      ih fun q mem => before q (List.mem_cons_of_mem _ mem), List.cons_append]

theorem verifyAddInvalidWalFile_collected {walRangeList : List VerifyWalRange}
    (collected : Collected walInfo segments invalid walRangeList) (fileResult : VerifyResult)
    (fileName : Str) (mem : walSegment ∈ segments) :
    Collected walInfo segments (invalid ++ [(walSegment, ⟨fileName, fileResult⟩)])
      (verifyAddInvalidWalFile fileResult fileName walSegment walRangeList) := by
  obtain ⟨span, isSpan, low, high⟩ := exists_span (R := follows walInfo) collected.sorted mem
  rw [← collected.runs, List.mem_map] at isSpan
  obtain ⟨walRange, isRange, rfl⟩ := isSpan
  obtain ⟨front, back, rfl⟩ := List.append_of_mem isRange
  have split := collected.runs.symm
  rw [List.map_append, List.map_cons] at split
  have before := stop_lt collected.sorted split low
  have after := lt_start collected.sorted split high
  constructor
  · rw [verifyAddInvalidWalFile_runs, collected.runs]
  · exact collected.sorted
  · intro item isItem
    rcases List.mem_append.mp isItem with isItem | isItem
    · exact collected.known item isItem
    · rwa [List.mem_singleton.mp isItem]
  · have apart : ∀ p, ¬Within walSegment p →
        invalidWithin (invalid ++ [(walSegment, ⟨fileName, fileResult⟩)]) p = invalidWithin invalid p := by
      intro p outside
      rw [invalidWithin, List.filter_append, List.filter_cons_of_neg (by simpa using outside)]
      simp [invalidWithin]
    rw [verifyAddInvalidWalFile_split fileResult fileName
      (fun p isP => before _ (List.mem_map_of_mem isP)) high]
    intro p isP
    rcases List.mem_append.mp isP with isP | isP
    · rw [apart p fun within => (before _ (List.mem_map_of_mem isP)).not_ge within.2]
      exact collected.results p (List.mem_append_left _ isP)
    rcases List.mem_cons.mp isP with rfl | isP
    · have own : Within walSegment walRange := ⟨low, high⟩
      rw [collected.results walRange isRange]
      rw [invalidWithin, invalidWithin, List.filter_append,
        List.filter_cons_of_pos (by exact decide_eq_true own), List.map_append]
      rfl
    · rw [apart p fun within => (after _ (List.mem_map_of_mem isP)).not_ge within.1]
      exact collected.results p (List.mem_append_right _ (List.mem_cons_of_mem _ isP))

end Ranges

/-! ## Runs -/

/-- What is listed of a directory. The names of the files begin with that of the directory. -/
structure WalListing where
  walPath : Str
  files : List Str
  some : files ≠ []
  sorted : files.Pairwise (· ≤ ·)
  path : ∀ file ∈ files, strSubN file 0 16 = walPath

def segments (walInfo : PgWal) (listings : List WalListing) : List Str :=
  listings.flatMap fun listing => (kept walInfo listing.files).map walSegmentOf

/-- The directories of an archive id are listed in order, and results of files that stayed in
their lists arrive in any order between. -/
inductive Run (walInfo : PgWal) :
    List WalListing → List (Str × VerifyInvalidFile) → VerifyArchiveResult → Prop where
  | start : Run walInfo [] [] { pgWalInfo := walInfo }
  | listing {listings : List WalListing} {invalid : List (Str × VerifyInvalidFile)}
      {archiveIdResult archiveIdResult' : VerifyArchiveResult} {jobErrorTotal jobErrorTotal' : Nat}
      {walFileList : List Str} (next : WalListing)
      (run : Run walInfo listings invalid archiveIdResult)
      (later : ∀ listing ∈ listings, listing.walPath < next.walPath)
      (created : verifyCreateArchiveIdRange archiveIdResult next.files jobErrorTotal =
        .ok (walFileList, archiveIdResult', jobErrorTotal')) :
      Run walInfo (listings ++ [next]) invalid archiveIdResult'
  | result {listings : List WalListing} {invalid : List (Str × VerifyInvalidFile)}
      {archiveIdResult : VerifyArchiveResult} {walSegment : Str} (fileResult : VerifyResult)
      (fileName : Str) (run : Run walInfo listings invalid archiveIdResult)
      (verified : walSegment ∈ segments walInfo listings) :
      Run walInfo listings (invalid ++ [(walSegment, ⟨fileName, fileResult⟩)])
        { archiveIdResult with
          walRangeList := verifyAddInvalidWalFile fileResult fileName walSegment
            archiveIdResult.walRangeList }

section Run

variable {walInfo : PgWal} {listings : List WalListing}
  {invalid : List (Str × VerifyInvalidFile)} {archiveIdResult : VerifyArchiveResult}

theorem segment_sorted (listing : WalListing) :
    listing.files.Pairwise (fun a b => walSegmentOf a ≤ walSegmentOf b) :=
  listing.sorted.imp fun le => take_le_take le 24

theorem verifyCreateArchiveIdRange_eq (archiveIdResult : VerifyArchiveResult) (next : WalListing)
    (jobErrorTotal : Nat) :
    ∃ ranges : WalRanges, ranges.walRangeList = archiveIdResult.walRangeList ∧
      Continues ranges (strSubN next.walPath 0 8) ∧
      verifyCreateArchiveIdRange archiveIdResult next.files jobErrorTotal =
        .ok (kept archiveIdResult.pgWalInfo next.files,
          { archiveIdResult with
            walRangeList := (((kept archiveIdResult.pgWalInfo next.files).map walSegmentOf).foldl
              (rangeAdd archiveIdResult.pgWalInfo) ranges).walRangeList },
          jobErrorTotal + errorTotal archiveIdResult.pgWalInfo next.files) := by
  have sorted := segment_sorted next
  cases isFiles : next.files with
  | nil => exact absurd isFiles next.some
  | cons walFile rest =>
    have path := next.path walFile (by rw [isFiles]; exact List.mem_cons_self)
    have timeline : strSubN (walSegmentOf walFile) 0 8 = strSubN next.walPath 0 8 := by
      rw [← path, walSegmentOf]
      simp [strSubN, List.take_take]
    rw [isFiles] at sorted
    refine ⟨⟨archiveIdResult.walRangeList, sameTimeline archiveIdResult.walRangeList walFile⟩, rfl,
      ?_, ?_⟩
    · rw [Continues, ← timeline]
      dsimp only
      rw [sameTimeline]
      cases archiveIdResult.walRangeList.getLast? with
      | none => simp
      | some last => simp
    · rw [verifyCreateArchiveIdRange]
      dsimp only
      rw [walkFiles_eq _ _ sorted]

/-- The segments of a file that stays are of the directory. -/
theorem strSubN_kept {listing : WalListing} {walSegment : Str}
    (mem : walSegment ∈ (kept walInfo listing.files).map walSegmentOf) :
    strSubN walSegment 0 16 = listing.walPath := by
  obtain ⟨file, isFile, rfl⟩ := List.mem_map.mp mem
  rw [← listing.path file (mem_kept.mp isFile).1, walSegmentOf]
  simp [strSubN, List.take_take]

theorem kept_pairwise (listing : WalListing) :
    ((kept walInfo listing.files).map walSegmentOf).Pairwise (· < ·) := by
  have sorted := (segment_sorted listing).filter fun file =>
    !skipped walInfo (walSegmentOf file) && occurs listing.files (walSegmentOf file) == 1
  have nodup : ((kept walInfo listing.files).map walSegmentOf).Nodup := by
    rw [List.nodup_iff_count_le_one]
    intro walSegment
    by_cases mem : walSegment ∈ (kept walInfo listing.files).map walSegmentOf
    · obtain ⟨file, isFile, rfl⟩ := List.mem_map.mp mem
      rw [← (mem_kept.mp isFile).2.2]
      exact ((List.filter_sublist).map _).count_le _
    · rw [List.count_eq_zero.mpr mem]
      exact Nat.zero_le 1
  exact (List.pairwise_map.mpr sorted).imp₂ (fun a b le ne => lt_of_le_of_ne le ne) nodup

theorem segments_concat (next : WalListing) : segments walInfo (listings ++ [next]) =
    segments walInfo listings ++ (kept walInfo next.files).map walSegmentOf := by
  rw [segments, List.flatMap_append, List.flatMap_singleton]
  rfl

theorem run_collected (run : Run walInfo listings invalid archiveIdResult) :
    archiveIdResult.pgWalInfo = walInfo ∧
      Collected walInfo (segments walInfo listings) invalid archiveIdResult.walRangeList := by
  induction run with
  | start =>
    exact ⟨rfl, rfl, List.Pairwise.nil, (fun _ mem => by cases mem), (fun _ mem => by cases mem)⟩
  | @listing listings invalid archiveIdResult _ jobErrorTotal _ _ next _ later created ih =>
    obtain ⟨info, collected⟩ := ih
    obtain ⟨ranges, same, continues, eq⟩ :=
      verifyCreateArchiveIdRange_eq archiveIdResult next jobErrorTotal
    rw [created, Except.ok.injEq, Prod.mk.injEq, Prod.mk.injEq, info] at eq
    obtain ⟨-, rfl, -⟩ := eq
    subst info
    refine ⟨rfl, ?_⟩
    rw [segments_concat]
    rw [← same] at collected
    refine foldl_rangeAdd collected continues ?_ ?_
    · intro s mem
      rw [← strSubN_kept mem]
      simp [strSubN, List.take_take]
    · refine List.pairwise_append.mpr ⟨collected.sorted, kept_pairwise next, ?_⟩
      intro s isOld t isNew
      obtain ⟨listing, isListing, isOld⟩ := List.mem_flatMap.mp isOld
      have less := later listing isListing
      rw [← strSubN_kept isOld, ← strSubN_kept isNew] at less
      exact lt_of_not_ge fun le => less.not_ge (take_le_take le 16)
  | result fileResult fileName _ verified ih =>
    exact ⟨ih.1, verifyAddInvalidWalFile_collected ih.2 fileResult fileName verified⟩

variable {walRangeList : List VerifyWalRange} {listed : List Str}

theorem ranges_pairwise (collected : Collected walInfo listed invalid walRangeList) :
    walRangeList.Pairwise (fun p q => p.stop < q.start) := by
  have apart := spans_pairwise (R := follows walInfo) collected.sorted
  rw [← collected.runs, List.pairwise_map] at apart
  exact apart

theorem range_le (collected : Collected walInfo listed invalid walRangeList)
    {walRange : VerifyWalRange} (mem : walRange ∈ walRangeList) :
    walRange.start ≤ walRange.stop := by
  have isSpan := List.mem_map_of_mem (f := rangeSpan) mem
  rw [collected.runs] at isSpan
  exact start_le_stop collected.sorted isSpan

theorem exists_unique_range (collected : Collected walInfo listed invalid walRangeList)
    {walSegment : Str} (mem : walSegment ∈ listed) :
    ∃! walRange, walRange ∈ walRangeList ∧ Within walSegment walRange := by
  obtain ⟨span, isSpan, within⟩ := exists_span (R := follows walInfo) collected.sorted mem
  rw [← collected.runs, List.mem_map] at isSpan
  obtain ⟨walRange, isRange, rfl⟩ := isSpan
  refine ⟨walRange, ⟨isRange, within⟩, ?_⟩
  rintro other ⟨isOther, withinOther⟩
  have isSpan := List.mem_map_of_mem (f := rangeSpan) isRange
  have isSpan' := List.mem_map_of_mem (f := rangeSpan) isOther
  rw [collected.runs] at isSpan isSpan'
  have same := span_unique collected.sorted isSpan' isSpan withinOther within
  have nodup : (walRangeList.map rangeSpan).Nodup := by
    rw [List.Nodup, List.pairwise_map]
    refine List.Pairwise.imp_of_mem (fun {p q} isP _ less eq => ?_) (ranges_pairwise collected)
    have ends : p.start = q.start := congrArg Span.start eq
    exact (less.trans_eq ends.symm).not_ge (range_le collected isP)
  exact List.inj_on_of_nodup_map nodup isOther isRange same

/-- A list keeps the files of its single segments, and the ranges are the runs of these segments
in the lists so far, in any run. The results of a segment are with the range it is in. -/
theorem verifyCreateArchiveIdRange_ranges (run : Run walInfo listings invalid archiveIdResult) :
    (∀ (next : WalListing) (jobErrorTotal : Nat), ∃ archiveIdResult',
      verifyCreateArchiveIdRange archiveIdResult next.files jobErrorTotal =
        .ok (kept walInfo next.files, archiveIdResult', jobErrorTotal +
          (skippedTotal walInfo next.files + (duplicated walInfo next.files).card))) ∧
    archiveIdResult.walRangeList.map rangeSpan =
      spans (follows walInfo) (segments walInfo listings) ∧
    archiveIdResult.walRangeList.Pairwise (fun p q => p.stop < q.start) ∧
    (∀ walRange ∈ archiveIdResult.walRangeList, walRange.start ≤ walRange.stop) ∧
    (∀ walSegment ∈ segments walInfo listings,
      ∃! walRange, walRange ∈ archiveIdResult.walRangeList ∧ Within walSegment walRange) ∧
    ∀ walRange ∈ archiveIdResult.walRangeList,
      walRange.invalidFileList = invalidWithin invalid walRange := by
  obtain ⟨rfl, collected⟩ := run_collected run
  refine ⟨?_, collected.runs, ranges_pairwise collected, fun _ => range_le collected,
    fun _ => exists_unique_range collected, collected.results⟩
  intro next jobErrorTotal
  obtain ⟨ranges, -, -, eq⟩ := verifyCreateArchiveIdRange_eq archiveIdResult next jobErrorTotal
  exact ⟨_, eq⟩

/-- A directory with a segment that is there twice and one that ends in FF. -/
def walListing : WalListing where
  walPath := "0000000100000000".toList
  files := ["000000010000000000000001-a".toList, "000000010000000000000002-b".toList,
    "000000010000000000000003-c".toList, "000000010000000000000003-d".toList,
    "000000010000000000000004-e".toList, "0000000100000000000000FF-f".toList]
  some := by decide
  sorted := by decide +kernel
  path := by decide +kernel

theorem verifyCreateArchiveIdRange_ranges_gap : ∃ archiveIdResult,
    Run ⟨90200, 16777216⟩ [walListing] [] archiveIdResult ∧
      archiveIdResult.walRangeList.map rangeSpan =
        [⟨"000000010000000000000001".toList, "000000010000000000000002".toList⟩,
          ⟨"000000010000000000000004".toList, "000000010000000000000004".toList⟩] := by
  obtain ⟨archiveIdResult, created⟩ :=
    (verifyCreateArchiveIdRange_ranges (@Run.start ⟨90200, 16777216⟩)).1 walListing 0
  have run := Run.listing walListing .start (fun _ mem => by cases mem) created
  exact ⟨archiveIdResult, run, (verifyCreateArchiveIdRange_ranges run).2.1.trans (by decide +kernel)⟩

end Run

end VerifyRange
