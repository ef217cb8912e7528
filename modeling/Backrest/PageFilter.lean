import Mathlib.Data.List.Chain
import Backrest.Blocks
import Backrest.StreamFilter
import Backrest.Effects

/-!
# Page checksums

The filter is given a relation segment one buffer at a time and keeps a list of the pages
that are damaged. A page is tested when it is not new and its LSN is below the limit. A
part of a page at the end counts as a damaged page when it is large enough to be one, and
otherwise nothing in that buffer is tested. The result holds the list with consecutive
pages told as a range.
-/

namespace PageFilter

open Text StreamFilter Blocks

def PG_PAGE_SIZE_DEFAULT : Nat := 8 * 1024

/-- `PG_SEGMENT_SIZE_DEFAULT / PG_PAGE_SIZE_DEFAULT` -/
def PG_SEGMENT_PAGE_DEFAULT : Nat := 1 * 1024 * 1024 * 1024 / PG_PAGE_SIZE_DEFAULT

/-! ## The page header -/

/-- An unsigned integer that is stored with its low byte first. -/
def fromBytes (bytes : Bytes) : Nat := bytes.foldr (fun byte high => byte.toNat + 256 * high) 0

/-- The fields of the header that are read. -/
structure PageHeaderData where
  xlogid : Nat
  xrecoff : Nat
  pd_checksum : Nat
  pd_upper : Nat

def field (page : Bytes) (offset size : Nat) : Nat := fromBytes ((page.drop offset).take size)

def pageHeader (page : Bytes) : PageHeaderData where
  xlogid := field page 0 4
  xrecoff := field page 4 4
  pd_checksum := field page 8 2
  pd_upper := field page 14 2

def pageXLogRecPtrGet (header : PageHeaderData) : Nat := header.xlogid <<< 32 ||| header.xrecoff

def pageLsn (page : Bytes) : Nat := pageXLogRecPtrGet (pageHeader page)

/-! ## The filter -/

structure PageChecksum where
  pageNoOffset : Nat
  lsnLimit : Nat
  valid : Bool
  align : Bool
  /-- Block number and LSN of each error. The list is created with the first error. -/
  error : List (Nat × Nat)
  deriving DecidableEq

def pageChecksumNew (segmentNo segmentPageTotal lsnLimit : Nat) : PageChecksum where
  pageNoOffset := segmentNo * segmentPageTotal % 2 ^ 32
  lsnLimit := lsnLimit
  valid := true
  align := true
  error := []

def misalignedError : Error :=
  ⟨.assertError, "should not be possible to see two misaligned pages in a row".toList⟩

section Process

variable (pgPageChecksum : Bytes → Nat → Nat)

/-- One turn of the page loop. -/
def testPage (this : PageChecksum) (input : Bytes) (pageTotal : Nat) (error : List (Nat × Nat))
    (pageIdx : Nat) : List (Nat × Nat) :=
  let page := block PG_PAGE_SIZE_DEFAULT input pageIdx
  let blockNo := (this.pageNoOffset + pageIdx) % 2 ^ 32
  if !((pageHeader page).pd_upper == 0 || pageLsn page ≥ this.lsnLimit ||
      ((this.align || pageIdx < pageTotal - 1) &&
        (pageHeader page).pd_checksum == pgPageChecksum page blockNo)) then
    error ++ [(blockNo, pageLsn page)]
  else
    error

/-- The page loop, made only while the file looks valid. -/
def testPages (this : PageChecksum) (input : Bytes) (pageTotal : Nat) : PageChecksum :=
  if this.valid then
    { this with
      error := (List.range pageTotal).foldl (testPage pgPageChecksum this input pageTotal) this.error
      pageNoOffset := (this.pageNoOffset + pageTotal) % 2 ^ 32 }
  else
    this

def pageChecksumProcess (this : PageChecksum) (input : Bytes) : Except Error PageChecksum :=
  let pageTotal := input.length / PG_PAGE_SIZE_DEFAULT % 2 ^ 32
  let pageRemainder := input.length % PG_PAGE_SIZE_DEFAULT
  if pageRemainder ≠ 0 then
    if !this.align then
      throw misalignedError
    -- enough for a partial write, of which the header can be read
    else if pageRemainder ≥ 512 then
      return testPages pgPageChecksum { this with align := false } input (pageTotal + 1)
    else
      return testPages pgPageChecksum { this with align := false, valid := false } input pageTotal
  else
    return testPages pgPageChecksum this input pageTotal

end Process

/-! ## The result -/

/-- An item of the abbreviated list. -/
inductive PageError
  | page (pageId : Nat)
  | range (pageId pageIdLast : Nat)
  deriving DecidableEq

/-- The inner loop: the last page of the run that `pageIdLast` is in, and what follows. -/
def runLast (pageIdLast : Nat) : List Nat → Nat × List Nat
  | [] => (pageIdLast, [])
  | pageIdNext :: rest =>
    if pageIdNext > (pageIdLast + 1) % 2 ^ 32 then (pageIdLast, pageIdNext :: rest)
    else runLast pageIdNext rest

theorem length_runLast (pageIdLast : Nat) (rest : List Nat) :
    (runLast pageIdLast rest).2.length ≤ rest.length := by
  induction rest generalizing pageIdLast with
  | nil => simp [runLast]
  | cons pageIdNext rest ih =>
    rw [runLast]
    split
    · simp
    · exact (ih pageIdNext).trans (by simp)

/-- The loop over the error list. -/
def abbreviate : List Nat → List PageError
  | [] => []
  | [pageId] => [.page pageId]
  | pageId :: pageIdNext :: rest =>
    if pageIdNext > (pageId + 1) % 2 ^ 32 then .page pageId :: abbreviate (pageIdNext :: rest)
    else .range pageId (runLast pageIdNext rest).1 :: abbreviate (runLast pageIdNext rest).2
  termination_by errors => errors.length
  decreasing_by
    · simp
    · have := length_runLast pageIdNext rest
      simp only [List.length_cons]
      omega

structure Result where
  /-- The key is there only when there was an error. -/
  error : Option (List PageError)
  valid : Bool
  align : Bool
  deriving DecidableEq

def pageChecksumResult (this : PageChecksum) : Result :=
  if this.error ≠ [] then ⟨some (abbreviate (this.error.map (·.1))), false, this.align⟩
  else ⟨none, this.valid, this.align⟩

/-- The filter over all the buffers of a file. -/
def pageChecksum (pgPageChecksum : Bytes → Nat → Nat) (segmentNo lsnLimit : Nat)
    (buffers : List Bytes) : Except Error Result := do
  let this ← buffers.foldlM (pageChecksumProcess pgPageChecksum)
    (pageChecksumNew segmentNo PG_SEGMENT_PAGE_DEFAULT lsnLimit)
  return pageChecksumResult this

/-! ## What is damaged -/

structure Damaged (pgPageChecksum : Bytes → Nat → Nat) (lsnLimit : Nat) (page : Bytes)
    (blockNo : Nat) : Prop where
  notNew : (pageHeader page).pd_upper ≠ 0
  before : pageLsn page < lsnLimit
  broken : page.length < PG_PAGE_SIZE_DEFAULT ∨
    (pageHeader page).pd_checksum ≠ pgPageChecksum page blockNo

instance (pgPageChecksum : Bytes → Nat → Nat) (lsnLimit : Nat) (page : Bytes) (blockNo : Nat) :
    Decidable (Damaged pgPageChecksum lsnLimit page blockNo) :=
  decidable_of_iff ((pageHeader page).pd_upper ≠ 0 ∧ pageLsn page < lsnLimit ∧
      (page.length < PG_PAGE_SIZE_DEFAULT ∨
        (pageHeader page).pd_checksum ≠ pgPageChecksum page blockNo))
    ⟨fun h => ⟨h.1, h.2.1, h.2.2⟩, fun h => ⟨h.notNew, h.before, h.broken⟩⟩

/-- The end of the content is whole or large enough to be a page. -/
def Testable (content : Bytes) : Prop :=
  content.length % PG_PAGE_SIZE_DEFAULT = 0 ∨ 512 ≤ content.length % PG_PAGE_SIZE_DEFAULT

/-- All the buffers but the last hold whole pages. -/
structure Cutting (content : Bytes) (buffers : List Bytes) : Prop where
  whole : buffers.flatten = content
  aligned : ∀ buffer ∈ buffers.dropLast, buffer.length % PG_PAGE_SIZE_DEFAULT = 0

theorem page_size_pos : 0 < PG_PAGE_SIZE_DEFAULT := by decide

theorem page_size : PG_PAGE_SIZE_DEFAULT = 8192 := by decide

theorem segment_page : PG_SEGMENT_PAGE_DEFAULT = 131072 := by decide

section Pages

variable {pgPageChecksum : Bytes → Nat → Nat} {this : PageChecksum} {input : Bytes}

def pageErrors (pgPageChecksum : Bytes → Nat → Nat) (lsnLimit offset : Nat) (content : Bytes)
    (i : Nat) : List (Nat × Nat) :=
  let page := block PG_PAGE_SIZE_DEFAULT content i
  if Damaged pgPageChecksum lsnLimit page ((offset + i) % 2 ^ 32) then
    [((offset + i) % 2 ^ 32, pageLsn page)]
  else []

def contentErrors (pgPageChecksum : Bytes → Nat → Nat) (lsnLimit offset : Nat) (content : Bytes) :
    List (Nat × Nat) :=
  (List.range (blockCount PG_PAGE_SIZE_DEFAULT content)).flatMap
    (pageErrors pgPageChecksum lsnLimit offset content)

theorem testPage_eq {pageTotal pageIdx : Nat} (error : List (Nat × Nat))
    (full : (this.align || decide (pageIdx < pageTotal - 1)) = true ↔
      ¬ (block PG_PAGE_SIZE_DEFAULT input pageIdx).length < PG_PAGE_SIZE_DEFAULT) :
    testPage pgPageChecksum this input pageTotal error pageIdx =
      error ++ pageErrors pgPageChecksum this.lsnLimit this.pageNoOffset input pageIdx := by
  rw [testPage, pageErrors]
  generalize block PG_PAGE_SIZE_DEFAULT input pageIdx = page at *
  generalize (this.pageNoOffset + pageIdx) % 2 ^ 32 = blockNo
  by_cases damaged : Damaged pgPageChecksum this.lsnLimit page blockNo
  · have notNew : ((pageHeader page).pd_upper == 0) = false := by simpa using damaged.notNew
    have before : decide (pageLsn page ≥ this.lsnLimit) = false := by simpa using damaged.before
    have broken : ((this.align || decide (pageIdx < pageTotal - 1)) &&
        (pageHeader page).pd_checksum == pgPageChecksum page blockNo) = false := by
      rcases damaged.broken with short | wrong
      · rw [Bool.eq_false_iff.mpr fun h => full.mp h short, Bool.false_and]
      · rw [beq_eq_false_iff_ne.mpr wrong, Bool.and_false]
    simp [notNew, before, broken, damaged]
  · rw [if_neg damaged]
    by_cases new : (pageHeader page).pd_upper = 0
    · simp [new]
    by_cases after : this.lsnLimit ≤ pageLsn page
    · simp [after]
    have good : (this.align || decide (pageIdx < pageTotal - 1)) = true ∧
        (pageHeader page).pd_checksum = pgPageChecksum page blockNo := by
      constructor
      · exact full.mpr fun short => damaged ⟨new, by omega, Or.inl short⟩
      · by_contra wrong
        exact damaged ⟨new, by omega, Or.inr wrong⟩
    simp only [good.1, good.2, beq_self_eq_true, Bool.and_true, Bool.or_true, Bool.not_true,
      Bool.false_eq_true, if_false, List.append_nil]

/-- The state after a testable input. -/
def scanned (pgPageChecksum : Bytes → Nat → Nat) (this : PageChecksum) (input : Bytes) :
    PageChecksum :=
  { this with
    align := decide (input.length % PG_PAGE_SIZE_DEFAULT = 0)
    error := this.error ++ contentErrors pgPageChecksum this.lsnLimit this.pageNoOffset input
    pageNoOffset := (this.pageNoOffset + blockCount PG_PAGE_SIZE_DEFAULT input) % 2 ^ 32 }

theorem testPages_eq (valid : this.valid = true)
    (full : ∀ i < blockCount PG_PAGE_SIZE_DEFAULT input,
      ((this.align || decide (i < blockCount PG_PAGE_SIZE_DEFAULT input - 1)) = true ↔
        ¬ (block PG_PAGE_SIZE_DEFAULT input i).length < PG_PAGE_SIZE_DEFAULT))
    (align : this.align = decide (input.length % PG_PAGE_SIZE_DEFAULT = 0)) :
    testPages pgPageChecksum this input (blockCount PG_PAGE_SIZE_DEFAULT input) =
      scanned pgPageChecksum this input := by
  have loop : (List.range (blockCount PG_PAGE_SIZE_DEFAULT input)).foldl
      (testPage pgPageChecksum this input (blockCount PG_PAGE_SIZE_DEFAULT input)) this.error =
      this.error ++ contentErrors pgPageChecksum this.lsnLimit this.pageNoOffset input := by
    rw [contentErrors, List.flatMap, ← List.foldl_append_eq_append]
    refine List.foldl_ext _ _ _ fun error i mem => ?_
    exact testPage_eq error (full i (List.mem_range.mp mem))
  rw [testPages, if_pos valid, loop, scanned, ← align]

/-- The page loop runs to the number of pages that are looked at. -/
theorem pageTotal_eq {size : Nat} (extra : Nat)
    (fits : size / PG_PAGE_SIZE_DEFAULT + extra ≤ PG_SEGMENT_PAGE_DEFAULT) :
    size / PG_PAGE_SIZE_DEFAULT % 2 ^ 32 + extra = size / PG_PAGE_SIZE_DEFAULT + extra := by
  rw [segment_page] at fits
  generalize size / PG_PAGE_SIZE_DEFAULT = n at *
  omega

theorem pageChecksumProcess_testable (valid : this.valid = true) (align : this.align = true)
    (fits : blockCount PG_PAGE_SIZE_DEFAULT input ≤ PG_SEGMENT_PAGE_DEFAULT)
    (testable : Testable input) :
    pageChecksumProcess pgPageChecksum this input = .ok (scanned pgPageChecksum this input) := by
  rw [pageChecksumProcess]
  by_cases whole : input.length % PG_PAGE_SIZE_DEFAULT = 0
  · have count := blockCount_of_aligned whole page_size_pos
    have total := pageTotal_eq 0 (count ▸ fits)
    rw [Nat.add_zero, Nat.add_zero] at total
    rw [if_neg (not_not.mpr whole), total, ← count, testPages_eq valid ?_ (by simp [align, whole])]
    · rfl
    intro i before
    rw [align, Bool.true_or, length_block_eq_iff _ _ page_size_pos]
    rw [count, page_size] at before
    rw [page_size]
    simp only [true_iff]
    omega
  · have count := blockCount_of_partial whole page_size_pos
    have total := pageTotal_eq 1 (count ▸ fits)
    rw [← count] at total
    have enough : input.length % PG_PAGE_SIZE_DEFAULT ≥ 512 := testable.resolve_left whole
    rw [if_pos whole, if_neg (by simp [align]), if_pos enough, total,
      @testPages_eq pgPageChecksum { this with align := false } input valid ?_ (by simp [whole])]
    · rfl
    intro i before
    rw [Bool.false_or, decide_eq_true_iff, length_block_eq_iff _ _ page_size_pos, count]
    rw [count] at before
    rw [page_size] at *
    omega

theorem pageChecksumProcess_short (align : this.align = true) (short : ¬ Testable input) :
    pageChecksumProcess pgPageChecksum this input =
      .ok { this with align := false, valid := false } := by
  rw [Testable, not_or] at short
  rw [pageChecksumProcess, if_pos short.1, if_neg (by simp [align]), if_neg short.2, testPages]
  rfl

variable {front back : Bytes} {lsnLimit offset : Nat}

section Aligned
variable (aligned : front.length % PG_PAGE_SIZE_DEFAULT = 0)
include aligned

theorem pageErrors_append_left {i : Nat} (before : i < blockCount PG_PAGE_SIZE_DEFAULT front) :
    pageErrors pgPageChecksum lsnLimit offset (front ++ back) i =
      pageErrors pgPageChecksum lsnLimit offset front i := by
  rw [pageErrors, pageErrors, block_append_left aligned page_size_pos before]

theorem pageErrors_append_right {i : Nat} :
    pageErrors pgPageChecksum lsnLimit offset (front ++ back)
        (blockCount PG_PAGE_SIZE_DEFAULT front + i) =
      pageErrors pgPageChecksum lsnLimit
        ((offset + blockCount PG_PAGE_SIZE_DEFAULT front) % 2 ^ 32) back i := by
  have blockNo : (offset + (blockCount PG_PAGE_SIZE_DEFAULT front + i)) % 2 ^ 32 =
      ((offset + blockCount PG_PAGE_SIZE_DEFAULT front) % 2 ^ 32 + i) % 2 ^ 32 := by omega
  rw [pageErrors, pageErrors, block_append_right i aligned page_size_pos, blockNo]

theorem contentErrors_append : contentErrors pgPageChecksum lsnLimit offset (front ++ back) =
      contentErrors pgPageChecksum lsnLimit offset front ++
        contentErrors pgPageChecksum lsnLimit
          ((offset + blockCount PG_PAGE_SIZE_DEFAULT front) % 2 ^ 32) back := by
  rw [contentErrors, blockCount_append aligned page_size_pos, List.range_add, List.flatMap_append,
    List.flatMap_map]
  refine congrArg₂ (· ++ ·) ?_ ?_
  · exact List.flatMap_congr fun i mem => pageErrors_append_left aligned (List.mem_range.mp mem)
  · exact List.flatMap_congr fun i _ => pageErrors_append_right aligned

/-- A buffer of whole pages and what follows it leave the state of both together. -/
theorem scanned_append : scanned pgPageChecksum (scanned pgPageChecksum this front) back =
      scanned pgPageChecksum this (front ++ back) := by
  have align : (front ++ back).length % PG_PAGE_SIZE_DEFAULT =
      back.length % PG_PAGE_SIZE_DEFAULT := by
    rw [List.length_append, Nat.add_mod, aligned, Nat.zero_add, Nat.mod_mod]
  have offset : ((this.pageNoOffset + blockCount PG_PAGE_SIZE_DEFAULT front) % 2 ^ 32 +
      blockCount PG_PAGE_SIZE_DEFAULT back) % 2 ^ 32 =
      (this.pageNoOffset + blockCount PG_PAGE_SIZE_DEFAULT (front ++ back)) % 2 ^ 32 := by
    rw [blockCount_append aligned page_size_pos]
    omega
  simp only [scanned, align, offset, contentErrors_append aligned, List.append_assoc]

end Aligned

theorem scanned_nil (align : this.align = true) (offset : this.pageNoOffset < 2 ^ 32) :
    scanned pgPageChecksum this [] = this := by
  have none : contentErrors pgPageChecksum this.lsnLimit this.pageNoOffset [] = [] := by
    rw [contentErrors, blockCount_nil page_size_pos]
    rfl
  rw [scanned, none, blockCount_nil page_size_pos, List.append_nil, Nat.add_zero,
    Nat.mod_eq_of_lt offset]
  cases this
  simp_all

/-- Buffers of whole pages are like one buffer that holds them all. -/
theorem process_aligned (buffers : List Bytes)
    (aligned : ∀ buffer ∈ buffers, buffer.length % PG_PAGE_SIZE_DEFAULT = 0)
    (valid : this.valid = true) (align : this.align = true) (offset : this.pageNoOffset < 2 ^ 32)
    (fits : blockCount PG_PAGE_SIZE_DEFAULT buffers.flatten ≤ PG_SEGMENT_PAGE_DEFAULT) :
    buffers.foldlM (pageChecksumProcess pgPageChecksum) this =
      .ok (scanned pgPageChecksum this buffers.flatten) := by
  induction buffers generalizing this with
  | nil =>
    rw [List.flatten_nil, scanned_nil align offset]
    rfl
  | cons buffer rest ih =>
    have first := aligned buffer List.mem_cons_self
    rw [List.flatten_cons, blockCount_append first page_size_pos] at fits
    have step : pageChecksumProcess pgPageChecksum this buffer =
        .ok (scanned pgPageChecksum this buffer) :=
      pageChecksumProcess_testable valid align (by omega) (Or.inl first)
    have run := @ih (scanned pgPageChecksum this buffer)
      (fun b mem => aligned b (List.mem_cons_of_mem _ mem)) valid (by simp [scanned, first])
      (Nat.mod_lt _ (by decide)) (by omega)
    rw [List.flatten_cons, ← scanned_append first, ← run, List.foldlM_cons, step]
    rfl

theorem flatten_aligned {buffers : List Bytes}
    (aligned : ∀ buffer ∈ buffers, buffer.length % PG_PAGE_SIZE_DEFAULT = 0) :
    buffers.flatten.length % PG_PAGE_SIZE_DEFAULT = 0 := by
  induction buffers with
  | nil => rfl
  | cons buffer rest ih =>
    have first := aligned buffer List.mem_cons_self
    have others := ih fun b mem => aligned b (List.mem_cons_of_mem _ mem)
    rw [List.flatten_cons, List.length_append, Nat.add_mod, first, others]
    decide

/-- The state before the last buffer, and what is left of the content for it. -/
theorem process_last {content last : Bytes} {front : List Bytes}
    (cutting : Cutting content (front ++ [last])) (valid : this.valid = true)
    (align : this.align = true) (offset : this.pageNoOffset < 2 ^ 32)
    (fits : blockCount PG_PAGE_SIZE_DEFAULT content ≤ PG_SEGMENT_PAGE_DEFAULT) :
    (front ++ [last]).foldlM (pageChecksumProcess pgPageChecksum) this =
        pageChecksumProcess pgPageChecksum (scanned pgPageChecksum this front.flatten) last ∧
      (scanned pgPageChecksum this front.flatten).align = true ∧
      content = front.flatten ++ last ∧ front.flatten.length % PG_PAGE_SIZE_DEFAULT = 0 := by
  have aligned := cutting.aligned
  rw [List.dropLast_concat] at aligned
  have flat := flatten_aligned aligned
  have whole : content = front.flatten ++ last := by
    rw [← cutting.whole, List.flatten_append, List.flatten_singleton]
  rw [whole, blockCount_append flat page_size_pos] at fits
  refine ⟨?_, decide_eq_true flat, whole, flat⟩
  rw [List.foldlM_append, process_aligned front aligned valid align offset (by omega)]
  show ([last].foldlM (pageChecksumProcess pgPageChecksum)
    (scanned pgPageChecksum this front.flatten)) = _
  rw [List.foldlM_cons]
  cases pageChecksumProcess pgPageChecksum (scanned pgPageChecksum this front.flatten) last <;> rfl

theorem testable_append (aligned : front.length % PG_PAGE_SIZE_DEFAULT = 0) :
    Testable (front ++ back) ↔ Testable back := by
  rw [Testable, Testable, List.length_append, Nat.add_mod, aligned, Nat.zero_add, Nat.mod_mod]

theorem process_testable {content : Bytes} {buffers : List Bytes} (cutting : Cutting content buffers)
    (testable : Testable content) (valid : this.valid = true) (align : this.align = true)
    (offset : this.pageNoOffset < 2 ^ 32)
    (fits : blockCount PG_PAGE_SIZE_DEFAULT content ≤ PG_SEGMENT_PAGE_DEFAULT) :
    buffers.foldlM (pageChecksumProcess pgPageChecksum) this =
      .ok (scanned pgPageChecksum this content) := by
  rcases List.eq_nil_or_concat buffers with rfl | ⟨front, last, rfl⟩
  · rw [← cutting.whole, List.flatten_nil, scanned_nil align offset]
    rfl
  rw [List.concat_eq_append] at cutting ⊢
  obtain ⟨run, aligned, rfl, flat⟩ := @process_last pgPageChecksum _ _ _ _
    cutting valid align offset fits
  rw [blockCount_append flat page_size_pos] at fits
  have step := @pageChecksumProcess_testable pgPageChecksum
    (scanned pgPageChecksum this front.flatten) last valid aligned (by omega)
    ((testable_append flat).mp testable)
  rw [run, step, scanned_append flat]

/-- A piece at the end that is no page makes the file invalid whatever the cutting. The last buffer
is not tested. -/
theorem process_short {content : Bytes} {buffers : List Bytes} (cutting : Cutting content buffers)
    (short : ¬ Testable content) (valid : this.valid = true) (align : this.align = true)
    (offset : this.pageNoOffset < 2 ^ 32)
    (fits : blockCount PG_PAGE_SIZE_DEFAULT content ≤ PG_SEGMENT_PAGE_DEFAULT) :
    buffers.foldlM (pageChecksumProcess pgPageChecksum) this =
      .ok { scanned pgPageChecksum this buffers.dropLast.flatten with align := false, valid := false } := by
  rcases List.eq_nil_or_concat buffers with rfl | ⟨front, last, rfl⟩
  · refine absurd (Or.inl ?_) short
    rw [← cutting.whole]
    rfl
  rw [List.concat_eq_append] at cutting ⊢
  obtain ⟨run, aligned, rfl, flat⟩ := @process_last pgPageChecksum _ _ _ _
    cutting valid align offset fits
  rw [run, pageChecksumProcess_short aligned (mt (testable_append flat).mpr short),
    List.dropLast_concat]

end Pages

/-! ## The abbreviated list -/

/-- The pages that an item stands for. -/
def PageError.pages : PageError → List Nat
  | .page pageId => [pageId]
  | .range pageId pageIdLast => List.range' pageId (pageIdLast + 1 - pageId)

def PageError.first : PageError → Nat
  | .page pageId => pageId
  | .range pageId _ => pageId

def PageError.last : PageError → Nat
  | .page pageId => pageId
  | .range _ pageIdLast => pageIdLast

/-- No item could be joined with the next, and a single page is not told as a range. -/
structure Maximal (errors : List PageError) : Prop where
  longer : ∀ pageId pageIdLast, PageError.range pageId pageIdLast ∈ errors → pageId < pageIdLast
  apart : errors.IsChain (fun e f => e.last + 1 < f.first)

section Abbreviate

theorem runLast_spec {pageIdLast : Nat} {rest : List Nat}
    (sorted : (pageIdLast :: rest).Pairwise (· < ·)) (small : ∀ pageId ∈ rest, pageId < 2 ^ 32) :
    pageIdLast ≤ (runLast pageIdLast rest).1 ∧
      rest = List.range' (pageIdLast + 1) ((runLast pageIdLast rest).1 - pageIdLast) ++
        (runLast pageIdLast rest).2 ∧
      ∀ next ∈ (runLast pageIdLast rest).2.head?, (runLast pageIdLast rest).1 + 1 < next := by
  induction rest generalizing pageIdLast with
  | nil => simp [runLast]
  | cons next rest ih =>
    obtain ⟨before, sorted⟩ := List.pairwise_cons.mp sorted
    have after := before next List.mem_cons_self
    have bound := small next List.mem_cons_self
    have exact_ : (pageIdLast + 1) % 2 ^ 32 = pageIdLast + 1 := Nat.mod_eq_of_lt (by omega)
    rw [runLast, exact_]
    by_cases gap : next > pageIdLast + 1
    · rw [if_pos gap]
      refine ⟨le_rfl, by simp, ?_⟩
      intro p head
      rw [List.head?_cons, Option.mem_some_iff] at head
      omega
    · rw [if_neg gap]
      have same : next = pageIdLast + 1 := by omega
      obtain ⟨low, split, ends⟩ := ih sorted fun p mem => small p (List.mem_cons_of_mem _ mem)
      refine ⟨by omega, ?_, ends⟩
      have count : (runLast next rest).1 - pageIdLast = (runLast next rest).1 - next + 1 := by omega
      rw [count, ← same, List.range'_succ, List.cons_append, ← split]

theorem abbreviate_head {errors : List Nat} {e : PageError}
    (head : (abbreviate errors).head? = some e) : errors.head? = some e.first := by
  match errors with
  | [] => simp [abbreviate] at head
  | [pageId] =>
    rw [abbreviate, List.head?_cons, Option.some_inj] at head
    rw [← head]
    rfl
  | pageId :: pageIdNext :: rest =>
    rw [abbreviate] at head
    split at head <;> rw [List.head?_cons, Option.some_inj] at head <;> rw [← head] <;> rfl

theorem pages_range {pageId pageIdLast : Nat} (low : pageId + 1 ≤ pageIdLast) :
    (PageError.range pageId pageIdLast).pages =
      pageId :: (pageId + 1) :: List.range' (pageId + 2) (pageIdLast - (pageId + 1)) := by
  have count : pageIdLast + 1 - pageId = pageIdLast - (pageId + 1) + 1 + 1 := by omega
  rw [PageError.pages, count, List.range'_succ, List.range'_succ]

theorem maximal_cons {e : PageError} {errors : List Nat} (rest : Maximal (abbreviate errors))
    (gap : ∀ next ∈ errors.head?, e.last + 1 < next)
    (longer : ∀ pageId pageIdLast, e = .range pageId pageIdLast → pageId < pageIdLast) :
    Maximal (e :: abbreviate errors) := by
  constructor
  · intro pageId pageIdLast mem
    rcases List.mem_cons.mp mem with same | mem
    · exact longer _ _ same.symm
    · exact rest.longer _ _ mem
  · cases errs : abbreviate errors with
    | nil => exact List.isChain_singleton e
    | cons f others =>
      have head : errors.head? = some f.first := abbreviate_head (by rw [errs, List.head?_cons])
      exact List.isChain_cons_cons.mpr ⟨gap f.first head, errs ▸ rest.apart⟩

/-- The list stands for the same pages, each run told as one range. -/
theorem abbreviate_spec (errors : List Nat) (sorted : errors.Pairwise (· < ·))
    (small : ∀ pageId ∈ errors, pageId < 2 ^ 32) :
    (abbreviate errors).flatMap PageError.pages = errors ∧ Maximal (abbreviate errors) := by
  induction errors using abbreviate.induct with
  | case1 => simp [abbreviate, Maximal.mk]
  | case2 pageId =>
    have none : Maximal (abbreviate []) := ⟨by simp [abbreviate], by simp [abbreviate]⟩
    refine ⟨by simp [abbreviate, PageError.pages], ?_⟩
    rw [abbreviate]
    simpa [abbreviate] using @maximal_cons (.page pageId) _ none (by simp) (by simp)
  | case3 pageId pageIdNext rest gap ih =>
    obtain ⟨before, sorted⟩ := List.pairwise_cons.mp sorted
    have bound := small pageIdNext (by simp)
    have after := before pageIdNext List.mem_cons_self
    obtain ⟨pages, maximal⟩ := ih sorted fun p mem => small p (List.mem_cons_of_mem _ mem)
    rw [abbreviate, if_pos gap]
    rw [Nat.mod_eq_of_lt (by omega)] at gap
    refine ⟨by rw [List.flatMap_cons, pages]; rfl, maximal_cons maximal ?_ (by simp)⟩
    intro next head
    rw [List.head?_cons, Option.mem_some_iff] at head
    rw [← head]
    exact gap
  | case4 pageId pageIdNext rest run ih =>
    obtain ⟨before, sorted⟩ := List.pairwise_cons.mp sorted
    have bound := small pageIdNext (by simp)
    have after := before pageIdNext List.mem_cons_self
    have smallRest : ∀ p ∈ rest, p < 2 ^ 32 := fun p mem => small p (by simp [mem])
    obtain ⟨low, split, ends⟩ := runLast_spec sorted smallRest
    have sublist : (runLast pageIdNext rest).2.Sublist rest := by
      nth_rewrite 2 [split]
      exact List.sublist_append_right _ _
    obtain ⟨pages, maximal⟩ := ih ((List.pairwise_cons.mp sorted).2.sublist sublist)
      fun p mem => smallRest p (sublist.subset mem)
    rw [abbreviate, if_neg run]
    rw [Nat.mod_eq_of_lt (by omega)] at run
    have same : pageIdNext = pageId + 1 := by omega
    refine ⟨?_, maximal_cons maximal ends ?_⟩
    · subst same
      rw [List.flatMap_cons, pages, pages_range low, List.cons_append, List.cons_append, ← split]
    · intro first last isRange
      rw [PageError.range.injEq] at isRange
      omega

end Abbreviate

/-! ## The segment -/

structure Segment where
  content : Bytes
  segmentNo : Nat
  fits : blockCount PG_PAGE_SIZE_DEFAULT content ≤ PG_SEGMENT_PAGE_DEFAULT

/-- The number of a page among all the pages of the relation. -/
def Segment.blockNo (this : Segment) (pageIdx : Nat) : Nat :=
  (this.segmentNo * PG_SEGMENT_PAGE_DEFAULT + pageIdx) % 2 ^ 32

/-- The block numbers of the damaged pages. -/
def Segment.damaged (this : Segment) (pgPageChecksum : Bytes → Nat → Nat) (lsnLimit : Nat) :
    List Nat :=
  ((List.range (blockCount PG_PAGE_SIZE_DEFAULT this.content)).filter fun i =>
    Damaged pgPageChecksum lsnLimit (block PG_PAGE_SIZE_DEFAULT this.content i)
      (this.blockNo i)).map this.blockNo

/-- The result tells the damaged pages, each run of them as one range. -/
structure Reports (result : Result) (damaged : List Nat) : Prop where
  pages : (result.error.getD []).flatMap PageError.pages = damaged
  maximal : Maximal (result.error.getD [])
  valid : result.valid = true ↔ result.error.getD [] = []

section Segment

variable {pgPageChecksum : Bytes → Nat → Nat} {segment : Segment} {lsnLimit : Nat}

/-- Where the segment starts is below the limit of an unsigned int. -/
theorem pageNoOffset_new :
    (pageChecksumNew segment.segmentNo PG_SEGMENT_PAGE_DEFAULT lsnLimit).pageNoOffset < 2 ^ 32 :=
  Nat.mod_lt _ (by decide)

theorem blockNo_lt {i j : Nat} (before : i < j)
    (last : j < blockCount PG_PAGE_SIZE_DEFAULT segment.content) :
    segment.blockNo i < segment.blockNo j := by
  have fits := segment.fits
  rw [Segment.blockNo, Segment.blockNo]
  rw [segment_page] at *
  omega

theorem damaged_sorted : (segment.damaged pgPageChecksum lsnLimit).Pairwise (· < ·) := by
  rw [Segment.damaged, List.pairwise_map]
  refine ((List.pairwise_lt_range.imp_of_mem ?_).filter _)
  intro i j _ last before
  exact blockNo_lt before (List.mem_range.mp last)

theorem damaged_small : ∀ pageId ∈ segment.damaged pgPageChecksum lsnLimit, pageId < 2 ^ 32 := by
  intro pageId mem
  obtain ⟨i, -, rfl⟩ := List.mem_map.mp mem
  exact Nat.mod_lt _ (by decide)

theorem contentErrors_segment :
    (contentErrors pgPageChecksum lsnLimit
      (pageChecksumNew segment.segmentNo PG_SEGMENT_PAGE_DEFAULT lsnLimit).pageNoOffset
      segment.content).map (·.1) = segment.damaged pgPageChecksum lsnLimit := by
  have blockNo : ∀ i, ((pageChecksumNew segment.segmentNo PG_SEGMENT_PAGE_DEFAULT
      lsnLimit).pageNoOffset + i) % 2 ^ 32 = segment.blockNo i := by
    intro i
    exact Nat.mod_add_mod _ _ _
  rw [contentErrors, Segment.damaged, List.map_flatMap]
  induction List.range (blockCount PG_PAGE_SIZE_DEFAULT segment.content) with
  | nil => rfl
  | cons i rest ih =>
    rw [List.flatMap_cons, ih, pageErrors, blockNo, List.filter_cons]
    by_cases damaged : Damaged pgPageChecksum lsnLimit
        (block PG_PAGE_SIZE_DEFAULT segment.content i) (segment.blockNo i)
    · simp only [if_pos damaged, decide_eq_true damaged, if_true, List.map_cons, List.map_nil,
        List.cons_append, List.nil_append]
    · simp only [if_neg damaged, decide_eq_false damaged, Bool.false_eq_true, if_false,
        List.map_nil, List.nil_append]

end Segment

theorem abbreviate_ne_nil {errors : List Nat} (some : errors ≠ []) : abbreviate errors ≠ [] := by
  match errors with
  | [pageId] => simp [abbreviate]
  | pageId :: pageIdNext :: rest =>
    rw [abbreviate]
    split <;> exact List.cons_ne_nil _ _

theorem pageChecksumResult_pages {this : PageChecksum}
    (sorted : (this.error.map (·.1)).Pairwise (· < ·))
    (small : ∀ pageId ∈ this.error.map (·.1), pageId < 2 ^ 32) :
    ((pageChecksumResult this).error.getD []).flatMap PageError.pages = this.error.map (·.1) ∧
      Maximal ((pageChecksumResult this).error.getD []) := by
  rw [pageChecksumResult]
  by_cases none : this.error = []
  · rw [if_neg (not_not.mpr none), none]
    exact ⟨rfl, by simp, by simp⟩
  · rw [if_pos none]
    exact abbreviate_spec _ sorted small

theorem pageChecksumResult_reports {this : PageChecksum} (valid : this.valid = true)
    (sorted : (this.error.map (·.1)).Pairwise (· < ·))
    (small : ∀ pageId ∈ this.error.map (·.1), pageId < 2 ^ 32) :
    Reports (pageChecksumResult this) (this.error.map (·.1)) := by
  obtain ⟨pages, maximal⟩ := pageChecksumResult_pages sorted small
  refine ⟨pages, maximal, ?_⟩
  rw [pageChecksumResult]
  by_cases none : this.error = []
  · rw [if_neg (not_not.mpr none)]
    simp [valid]
  · have some : abbreviate (this.error.map (·.1)) ≠ [] := abbreviate_ne_nil (by simpa using none)
    rw [if_pos none]
    simpa using some

theorem exists_front {segment : Segment} {buffers : List Bytes}
    (cutting : Cutting segment.content buffers) :
    ∃ front : Segment, front.content = buffers.dropLast.flatten ∧
      front.segmentNo = segment.segmentNo := by
  refine ⟨⟨buffers.dropLast.flatten, segment.segmentNo, ?_⟩, rfl, rfl⟩
  have flat := flatten_aligned cutting.aligned
  have fits := segment.fits
  rcases List.eq_nil_or_concat buffers with rfl | ⟨front, last, rfl⟩
  · exact Nat.zero_le _
  · rw [List.concat_eq_append] at cutting flat ⊢
    rw [List.dropLast_concat] at flat ⊢
    rw [← cutting.whole, List.flatten_append, blockCount_append flat page_size_pos] at fits
    omega

/-- A segment with whole pages, or with enough of the last one, has its damaged pages told.
With less of the last page it is told as neither valid nor aligned, and the pages told are the
damaged ones of the buffers before the last. -/
theorem pageChecksum_segment (pgPageChecksum : Bytes → Nat → Nat) (segment : Segment)
    (lsnLimit : Nat) (buffers : List Bytes) (cutting : Cutting segment.content buffers) :
    ∃ result, pageChecksum pgPageChecksum segment.segmentNo lsnLimit buffers = .ok result ∧
      (Testable segment.content →
        Reports result (segment.damaged pgPageChecksum lsnLimit) ∧
        ∀ others, Cutting segment.content others →
          pageChecksum pgPageChecksum segment.segmentNo lsnLimit others = .ok result) ∧
      (¬ Testable segment.content → result.valid = false ∧ result.align = false ∧
        ∃ front : Segment, front.content = buffers.dropLast.flatten ∧
          front.segmentNo = segment.segmentNo ∧
          (result.error.getD []).flatMap PageError.pages =
            front.damaged pgPageChecksum lsnLimit ∧
          Maximal (result.error.getD [])) := by
  have offset := @pageNoOffset_new segment lsnLimit
  by_cases testable : Testable segment.content
  · have run : ∀ others, Cutting segment.content others →
        pageChecksum pgPageChecksum segment.segmentNo lsnLimit others =
          .ok (pageChecksumResult (scanned pgPageChecksum
            (pageChecksumNew segment.segmentNo PG_SEGMENT_PAGE_DEFAULT lsnLimit)
            segment.content)) := by
      intro others cut
      rw [pageChecksum, process_testable cut testable rfl rfl offset segment.fits]
      rfl
    refine ⟨_, run buffers cutting, fun _ => ⟨?_, run⟩, fun short => absurd testable short⟩
    have blocks := @contentErrors_segment pgPageChecksum segment lsnLimit
    rw [← blocks]
    exact @pageChecksumResult_reports (scanned _ _ _) rfl (blocks ▸ damaged_sorted)
      (blocks ▸ damaged_small)
  · have run := @process_short pgPageChecksum _ _ _ cutting testable rfl rfl offset segment.fits
    refine ⟨_, by rw [pageChecksum, run]; rfl, fun h => absurd h testable, fun _ => ?_⟩
    obtain ⟨front, isContent, isNo⟩ := exists_front cutting
    have blocks := @contentErrors_segment pgPageChecksum front lsnLimit
    rw [isContent, isNo] at blocks
    have told := @pageChecksumResult_pages
      { scanned pgPageChecksum (pageChecksumNew segment.segmentNo PG_SEGMENT_PAGE_DEFAULT lsnLimit)
          buffers.dropLast.flatten with align := false, valid := false }
      (blocks ▸ damaged_sorted) (blocks ▸ damaged_small)
    refine ⟨?_, ?_, front, isContent, isNo, told.1.trans blocks, told.2⟩
    · rw [pageChecksumResult]
      split <;> rfl
    · rw [pageChecksumResult]
      split <;> rfl

/-- A page and the first bytes of another. -/
def partialSegment : Segment where
  content := List.replicate 8792 1
  segmentNo := 3
  fits := by
    rw [blockCount, List.length_replicate]
    decide

/-- The page and the part of the next are told as one range. -/
theorem pageChecksum_partialSegment :
    ∃ result, pageChecksum (fun _ _ => 0) 3 (2 ^ 63)
        [List.replicate 8192 1, List.replicate 600 1] = .ok result ∧
      Reports result (partialSegment.damaged (fun _ _ => 0) (2 ^ 63)) := by
  have cut : Cutting partialSegment.content [List.replicate 8192 1, List.replicate 600 1] := by
    refine ⟨?_, fun buffer mem => ?_⟩
    · rw [List.flatten_cons, List.flatten_singleton, List.replicate_append_replicate]
      rfl
    rw [List.mem_singleton.mp mem, List.length_replicate]
    decide
  have testable : Testable partialSegment.content := by
    rw [Testable, partialSegment, List.length_replicate]
    decide
  obtain ⟨result, run, reports, -⟩ :=
    pageChecksum_segment (fun _ _ => 0) partialSegment (2 ^ 63) _ cut
  exact ⟨result, run, (reports testable).1⟩

/-- A page and a piece that is too short to be one. -/
def pieceSegment : Segment where
  content := List.replicate 8292 1
  segmentNo := 0
  fits := by
    rw [blockCount, List.length_replicate]
    decide

/-- In one buffer with the piece the page is not tested, in a buffer of its own it is. -/
theorem pageChecksum_piece :
    ¬ ∀ (pgPageChecksum : Bytes → Nat → Nat) (segment : Segment) (lsnLimit : Nat)
      (buffers others : List Bytes), Cutting segment.content buffers →
      Cutting segment.content others →
      pageChecksum pgPageChecksum segment.segmentNo lsnLimit buffers =
        pageChecksum pgPageChecksum segment.segmentNo lsnLimit others := by
  intro same
  have whole : Cutting pieceSegment.content [List.replicate 8292 1] :=
    ⟨List.append_nil _, fun buffer none => by cases none⟩
  have cut : Cutting pieceSegment.content [List.replicate 8192 1, List.replicate 100 1] := by
    refine ⟨?_, fun buffer mem => ?_⟩
    · rw [List.flatten_cons, List.flatten_singleton, List.replicate_append_replicate]
      rfl
    rw [List.mem_singleton.mp mem, List.length_replicate]
    decide
  have results := congrArg (fun result => result.toOption.bind (·.error) |>.isSome)
    (same (fun _ _ => 0) pieceSegment (2 ^ 63) _ _ whole cut)
  exact absurd results (by decide +kernel)

end PageFilter
