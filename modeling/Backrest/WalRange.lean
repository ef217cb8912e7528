import Backrest.FuelLoop
import Backrest.WalSegment

/-!
# The segments between two LSNs

The list of segments a backup needs is counted up in the LSNs, and the segments of the
archive follow each other by name. Both are one run of whole numbers, the places of the
segments.
-/

namespace WalRange

open Text FuelLoop HexText ArchiveAsync WalSegment

/-! ## The code -/

section Code

variable (pgVersion timeline lsnStart lsnStop walSegmentSize : Nat)

def pgLsnToWalSegment (lsn : Nat) : Str :=
  walName timeline (lsn / 2 ^ 32) (lsn % 2 ^ 32 / walSegmentSize)

structure Position where
  startMajor : Nat
  startMinor : Nat
  result : List Str

/-- One round of the loop, which ends when both parts are those of the last segment. -/
def rangeRound (stopMajor stopMinor : Nat) (s : Position) :
    Outcome Error (Position ⊕ List Str) :=
  let skipFF := decide (pgVersion ≤ 90200)
  let minorPerMajor := 0xFFFFFFFF / walSegmentSize
  if s.startMajor = stopMajor ∧ s.startMinor = stopMinor then .ok (.inr s.result)
  else
    let startMinor := (s.startMinor + 1) % 2 ^ 32
    let (startMajor, startMinor) :=
      if (skipFF && startMinor == 0xFF) || (!skipFF && decide (startMinor > minorPerMajor)) then
        ((s.startMajor + 1) % 2 ^ 32, 0)
      else (s.startMajor, startMinor)
    .ok (.inl ⟨startMajor, startMinor, s.result ++ [walName timeline startMajor startMinor]⟩)

def pgLsnRangeToWalSegmentList (fuel : Nat) : Outcome Error (List Str) :=
  loop (rangeRound pgVersion timeline walSegmentSize (lsnStop / 2 ^ 32)
    (lsnStop % 2 ^ 32 / walSegmentSize)) fuel
    ⟨lsnStart / 2 ^ 32, lsnStart % 2 ^ 32 / walSegmentSize,
      [pgLsnToWalSegment timeline walSegmentSize lsnStart]⟩

end Code

theorem pgLsnRangeToWalSegmentList_mono (pgVersion timeline lsnStart lsnStop walSegmentSize : Nat) :
    Mono (pgLsnRangeToWalSegmentList pgVersion timeline lsnStart lsnStop walSegmentSize) := by
  have mono := @Mono.loop Error _ _
    (fun _ => rangeRound pgVersion timeline walSegmentSize (lsnStop / 2 ^ 32)
      (lsnStop % 2 ^ 32 / walSegmentSize)) (fun _ => Mono.const _)
  exact mono _

/-! ## Places -/

def pgVersions : List Nat :=
  [80300, 80400, 90000, 90100, 90200, 90300, 90400, 90500, 90600, 100000, 110000, 120000, 130000,
    140000]

structure Segmented (pgVersion walSegmentSize : Nat) : Prop where
  version : pgVersion ∈ pgVersions
  divides : walSegmentSize ∣ 2 ^ 32
  fixed : pgVersion < 110000 → walSegmentSize = 2 ^ 24

def InFF (pgVersion walSegmentSize lsn : Nat) : Prop :=
  pgVersion ≤ 90200 ∧ lsn % 2 ^ 32 / walSegmentSize = 0xFF

section Places

variable {pgVersion walSegmentSize : Nat}

def perMajor (pgVersion walSegmentSize : Nat) : Nat :=
  if pgVersion ≤ 90200 then 0xFF else 2 ^ 32 / walSegmentSize

def nameAt (timeline per place : Nat) : Str := walName timeline (place / per) (place % per)

def lsnPlace (per walSegmentSize lsn : Nat) : Nat :=
  lsn / 2 ^ 32 * per + lsn % 2 ^ 32 / walSegmentSize

theorem old_iff (version : pgVersion ∈ pgVersions) : pgVersion < 90300 ↔ pgVersion ≤ 90200 := by
  have all : ∀ v ∈ pgVersions, v < 90300 ↔ v ≤ 90200 := by decide
  exact all pgVersion version

theorem Segmented.size_pos (h : Segmented pgVersion walSegmentSize) : 0 < walSegmentSize :=
  Nat.pos_of_dvd_of_pos h.divides (by decide)

theorem Segmented.perMajor_pos (h : Segmented pgVersion walSegmentSize) :
    0 < perMajor pgVersion walSegmentSize := by
  rw [perMajor]
  split
  · decide
  · exact Nat.div_pos (Nat.le_of_dvd (by decide) h.divides) h.size_pos

theorem perMajor_le : perMajor pgVersion walSegmentSize ≤ 2 ^ 32 := by
  rw [perMajor]
  split
  · decide
  · exact Nat.div_le_self _ _

/-- The number of the last segment of a major number. -/
theorem minorPerMajor_eq (divides : walSegmentSize ∣ 2 ^ 32) :
    (2 ^ 32 - 1) / walSegmentSize + 1 = 2 ^ 32 / walSegmentSize := by
  have pos : 0 < walSegmentSize := Nat.pos_of_dvd_of_pos divides (by decide)
  obtain ⟨count, same⟩ := divides
  rw [same, Nat.mul_div_cancel_left _ pos]
  cases count with
  | zero => omega
  | succ last =>
    congr 1
    apply Nat.div_eq_of_lt_le
    · rw [Nat.mul_succ, Nat.mul_comm]
      omega
    · rw [Nat.succ_mul, Nat.mul_succ, Nat.mul_comm]
      omega

theorem place_next {per : Nat} (place : Nat) (pos : 0 < per) :
    (place % per + 1 = per ∧ (place + 1) / per = place / per + 1 ∧ (place + 1) % per = 0) ∨
      (place % per + 1 < per ∧ (place + 1) / per = place / per ∧
        (place + 1) % per = place % per + 1) := by
  have parts := Nat.div_add_mod place per
  have low := Nat.mod_lt place pos
  rcases Nat.lt_or_ge (place % per + 1) per with inside | last
  · have both := (Nat.div_mod_unique (a := place + 1) (d := place / per) (c := place % per + 1)
      pos).mpr ⟨by omega, inside⟩
    exact .inr ⟨inside, both.1, both.2⟩
  · have both := (Nat.div_mod_unique (a := place + 1) (d := place / per + 1) (c := 0) pos).mpr
      ⟨by rw [Nat.mul_succ]; omega, pos⟩
    exact .inl ⟨by omega, both.1, both.2⟩

/-- The next place has numbers of 32 bits, and its minor number does not wrap. -/
structure HasNext (pgVersion walSegmentSize place : Nat) : Prop where
  majorFits : (place + 1) / perMajor pgVersion walSegmentSize < 2 ^ 32
  noWrap : walSegmentSize = 1 → place % perMajor pgVersion walSegmentSize + 1 <
    perMajor pgVersion walSegmentSize

theorem HasNext.minor_lt (next : HasNext pgVersion walSegmentSize place)
    (h : Segmented pgVersion walSegmentSize) :
    place % perMajor pgVersion walSegmentSize + 1 < 2 ^ 32 := by
  have low := Nat.mod_lt place h.perMajor_pos
  have atMost := @perMajor_le pgVersion walSegmentSize
  by_cases one : walSegmentSize = 1
  · have noWrap := next.noWrap one
    omega
  · have half : perMajor pgVersion walSegmentSize ≤ 2 ^ 31 := by
      rw [perMajor]
      split
      · decide
      · have two : 2 ≤ walSegmentSize := by
          have pos := h.size_pos
          omega
        exact (Nat.div_le_div_left two (by decide)).trans (by decide)
    omega

theorem partsNext_place (h : Segmented pgVersion walSegmentSize)
    (next : HasNext pgVersion walSegmentSize place) :
    partsNext walSegmentSize pgVersion (place / perMajor pgVersion walSegmentSize)
        (place % perMajor pgVersion walSegmentSize) =
      ((place + 1) / perMajor pgVersion walSegmentSize,
        (place + 1) % perMajor pgVersion walSegmentSize) := by
  have low := Nat.mod_lt place h.perMajor_pos
  have noWrap := next.minor_lt h
  have majorFits := next.majorFits
  rw [partsNext, Nat.mod_eq_of_lt noWrap]
  have last := minorPerMajor_eq h.divides
  by_cases old : pgVersion ≤ 90200
  · have size := h.fixed (by omega)
    have per : perMajor pgVersion walSegmentSize = 0xFF := by rw [perMajor, if_pos old]
    rw [per] at low noWrap majorFits ⊢
    subst size
    have hack : pgVersion < 90300 := (old_iff h.version).mpr old
    have notOver : ¬ place % 0xFF + 1 > (2 ^ 32 - 1) / 2 ^ 24 := by omega
    rw [if_neg notOver]
    dsimp only
    rcases place_next place (show 0 < 0xFF by decide) with ⟨full, major, minor⟩ | ⟨inside, major, minor⟩
    · rw [major] at majorFits
      rw [if_pos ⟨full, hack⟩, major, minor, Nat.mod_eq_of_lt majorFits]
    · rw [if_neg (by omega), major, minor]
  · have per : perMajor pgVersion walSegmentSize = 2 ^ 32 / walSegmentSize := by
      rw [perMajor, if_neg old]
    rw [per] at low noWrap majorFits ⊢
    have hack : ¬ pgVersion < 90300 := fun older => old ((old_iff h.version).mp older)
    have pos := h.perMajor_pos
    rw [per] at pos
    dsimp only
    rw [if_neg (fun both => hack both.2)]
    rcases place_next place pos with ⟨full, major, minor⟩ | ⟨inside, major, minor⟩
    · have carried : place % (2 ^ 32 / walSegmentSize) + 1 > (2 ^ 32 - 1) / walSegmentSize := by omega
      rw [major] at majorFits
      rw [if_pos carried, major, minor, Nat.mod_eq_of_lt majorFits]
    · have notOver : ¬ place % (2 ^ 32 / walSegmentSize) + 1 > (2 ^ 32 - 1) / walSegmentSize := by
        omega
      rw [if_neg notOver, major, minor]

/-- The loop counts to the next place too. -/
theorem rangeRound_place {stopMajor stopMinor : Nat} (h : Segmented pgVersion walSegmentSize)
    (next : HasNext pgVersion walSegmentSize place) (timeline : Nat) (result : List Str)
    (before : ¬ (place / perMajor pgVersion walSegmentSize = stopMajor ∧
      place % perMajor pgVersion walSegmentSize = stopMinor)) :
    rangeRound pgVersion timeline walSegmentSize stopMajor stopMinor
        ⟨place / perMajor pgVersion walSegmentSize, place % perMajor pgVersion walSegmentSize,
          result⟩ =
      .ok (.inl ⟨(place + 1) / perMajor pgVersion walSegmentSize,
        (place + 1) % perMajor pgVersion walSegmentSize,
        result ++ [nameAt timeline (perMajor pgVersion walSegmentSize) (place + 1)]⟩) := by
  have low := Nat.mod_lt place h.perMajor_pos
  have last : 0xFFFFFFFF / walSegmentSize + 1 = 2 ^ 32 / walSegmentSize :=
    minorPerMajor_eq h.divides
  have full : ∀ minor, minor ≤ perMajor pgVersion walSegmentSize →
      (((decide (pgVersion ≤ 90200) && minor == 0xFF) ||
        (!decide (pgVersion ≤ 90200) && decide (minor > 0xFFFFFFFF / walSegmentSize))) = true ↔
      minor = perMajor pgVersion walSegmentSize) := by
    intro minor atMost
    by_cases old : pgVersion ≤ 90200
    · have per : perMajor pgVersion walSegmentSize = 0xFF := by rw [perMajor, if_pos old]
      rw [per]
      simp [old]
    · have per : perMajor pgVersion walSegmentSize = 2 ^ 32 / walSegmentSize := by
        rw [perMajor, if_neg old]
      rw [per] at atMost ⊢
      simp only [old, decide_false, Bool.false_and, Bool.not_false, Bool.true_and, Bool.false_or,
        decide_eq_true_eq]
      constructor <;> intro <;> omega
  rw [rangeRound]
  dsimp only
  rw [if_neg before, Nat.mod_eq_of_lt (next.minor_lt h), nameAt]
  have majorFits := next.majorFits
  rcases place_next place h.perMajor_pos with ⟨isLast, major, minor⟩ | ⟨inside, major, minor⟩
  · rw [major] at majorFits
    rw [if_pos ((full _ (by omega)).mpr isLast), major, minor, Nat.mod_eq_of_lt majorFits]
  · rw [if_neg (fun carried => absurd ((full _ (by omega)).mp carried) (by omega)), major, minor]

theorem walSegmentNext_nameAt {timeline : Nat} (timelineFits : timeline < 2 ^ 32)
    (h : Segmented pgVersion walSegmentSize) (next : HasNext pgVersion walSegmentSize place) :
    walSegmentNext (nameAt timeline (perMajor pgVersion walSegmentSize) place) walSegmentSize
        pgVersion =
      nameAt timeline (perMajor pgVersion walSegmentSize) (place + 1) := by
  have majorFits := (Nat.div_le_div_right (Nat.le_succ place)).trans_lt next.majorFits
  have minorFits := (Nat.le_succ _).trans_lt (next.minor_lt h)
  rw [nameAt, walSegmentNext_walName timelineFits majorFits minorFits, partsNext_place h next]
  rfl

end Places

/-! ## Runs of places -/

section Runs

variable {pgVersion walSegmentSize timeline : Nat}

theorem walSegmentRange_places (timelineFits : timeline < 2 ^ 32)
    (h : Segmented pgVersion walSegmentSize) {place count : Nat}
    (nexts : ∀ p, place ≤ p → p < place + count → HasNext pgVersion walSegmentSize p) :
    walSegmentRange (nameAt timeline (perMajor pgVersion walSegmentSize) place) walSegmentSize
        pgVersion (count + 1) =
      (List.range' place (count + 1)).map (nameAt timeline (perMajor pgVersion walSegmentSize)) := by
  induction count generalizing place with
  | zero => rfl
  | succ count ih =>
    rw [walSegmentRange, walSegmentNext_nameAt timelineFits h (nexts place le_rfl (by omega)),
      ih fun p low high => nexts p (by omega) (by omega)]
    rfl

theorem loop_places (h : Segmented pgVersion walSegmentSize) {place count : Nat}
    (nexts : ∀ p, place ≤ p → p < place + count → HasNext pgVersion walSegmentSize p)
    (result : List Str) :
    LoopReturns (fun _ => rangeRound pgVersion timeline walSegmentSize
        ((place + count) / perMajor pgVersion walSegmentSize)
        ((place + count) % perMajor pgVersion walSegmentSize))
      ⟨place / perMajor pgVersion walSegmentSize, place % perMajor pgVersion walSegmentSize, result⟩
      (result ++ (List.range' (place + 1) count).map
        (nameAt timeline (perMajor pgVersion walSegmentSize))) := by
  induction count generalizing place result with
  | zero =>
    refine LoopReturns.stop (.of_eq fun _ => ?_)
    rw [rangeRound, Nat.add_zero, if_pos ⟨rfl, rfl⟩, List.range'_zero, List.map_nil, List.append_nil]
  | succ count ih =>
    have before : ¬ (place / perMajor pgVersion walSegmentSize =
          (place + (count + 1)) / perMajor pgVersion walSegmentSize ∧
        place % perMajor pgVersion walSegmentSize =
          (place + (count + 1)) % perMajor pgVersion walSegmentSize) := by
      rintro ⟨major, minor⟩
      have here := Nat.div_add_mod place (perMajor pgVersion walSegmentSize)
      rw [major, minor, Nat.div_add_mod] at here
      omega
    have rest := @ih (place + 1) (fun p low high => nexts p (by omega) (by omega))
      (result ++ [nameAt timeline (perMajor pgVersion walSegmentSize) (place + 1)])
    rw [List.append_assoc, List.singleton_append, ← List.map_cons, ← List.range'_succ,
      Nat.add_right_comm, Nat.add_assoc place count 1] at rest
    exact rest.next (.of_eq fun _ =>
      rangeRound_place h (nexts place le_rfl (by omega)) timeline result before)

theorem nameAt_lt {per p q : Nat} (pos : 0 < per) (small : per ≤ 2 ^ 32) (fits : q / per < 2 ^ 32)
    (less : p < q) : nameAt timeline per p < nameAt timeline per q := by
  have lowP := Nat.mod_lt p pos
  have lowQ := Nat.mod_lt q pos
  have major := Nat.div_le_div_right (c := per) less.le
  rw [nameAt, nameAt, walName_lt_iff (by omega) (by omega) fits (by omega)]
  rcases Nat.lt_or_ge (p / per) (q / per) with lower | higher
  · exact .inl lower
  · have same : p / per = q / per := by omega
    refine .inr ⟨same, ?_⟩
    have here := Nat.div_add_mod p per
    have there := Nat.div_add_mod q per
    rw [same] at here
    omega

end Runs

/-! ## LSNs -/

section Lsns

variable {pgVersion walSegmentSize lsn : Nat}

theorem lsn_minor_lt (h : Segmented pgVersion walSegmentSize)
    (real : ¬ InFF pgVersion walSegmentSize lsn) :
    lsn % 2 ^ 32 / walSegmentSize < perMajor pgVersion walSegmentSize := by
  rw [perMajor]
  split
  · rename_i old
    have size := h.fixed (by omega)
    have notFF : ¬ lsn % 2 ^ 32 / walSegmentSize = 0xFF := fun isFF => real ⟨old, isFF⟩
    subst size
    omega
  · rw [Nat.div_lt_iff_lt_mul h.size_pos, Nat.div_mul_cancel h.divides]
    exact Nat.mod_lt _ (by decide)

theorem lsnPlace_parts (h : Segmented pgVersion walSegmentSize)
    (real : ¬ InFF pgVersion walSegmentSize lsn) :
    lsnPlace (perMajor pgVersion walSegmentSize) walSegmentSize lsn /
        perMajor pgVersion walSegmentSize = lsn / 2 ^ 32 ∧
      lsnPlace (perMajor pgVersion walSegmentSize) walSegmentSize lsn %
        perMajor pgVersion walSegmentSize = lsn % 2 ^ 32 / walSegmentSize := by
  apply (Nat.div_mod_unique h.perMajor_pos).mpr
  refine ⟨?_, lsn_minor_lt h real⟩
  rw [lsnPlace, Nat.mul_comm, Nat.add_comm]

theorem nameAt_lsnPlace (timeline : Nat) (h : Segmented pgVersion walSegmentSize)
    (real : ¬ InFF pgVersion walSegmentSize lsn) :
    nameAt timeline (perMajor pgVersion walSegmentSize)
        (lsnPlace (perMajor pgVersion walSegmentSize) walSegmentSize lsn) =
      pgLsnToWalSegment timeline walSegmentSize lsn := by
  rw [nameAt, (lsnPlace_parts h real).1, (lsnPlace_parts h real).2]
  rfl

theorem lsnPlace_mono {a b : Nat} (h : Segmented pgVersion walSegmentSize)
    (real : ¬ InFF pgVersion walSegmentSize a) (ordered : a ≤ b) :
    lsnPlace (perMajor pgVersion walSegmentSize) walSegmentSize a ≤
      lsnPlace (perMajor pgVersion walSegmentSize) walSegmentSize b := by
  have minor := lsn_minor_lt h real
  rw [lsnPlace, lsnPlace]
  rcases Nat.lt_or_ge (a / 2 ^ 32) (b / 2 ^ 32) with lower | higher
  · have rows : (a / 2 ^ 32 + 1) * perMajor pgVersion walSegmentSize ≤
        b / 2 ^ 32 * perMajor pgVersion walSegmentSize := Nat.mul_le_mul_right _ lower
    rw [Nat.add_one_mul] at rows
    exact (Nat.add_le_add_left minor.le _).trans (rows.trans (Nat.le_add_right _ _))
  · have same : a / 2 ^ 32 = b / 2 ^ 32 := by omega
    have inRow : a % 2 ^ 32 ≤ b % 2 ^ 32 := by omega
    rw [same]
    exact Nat.add_le_add_left (Nat.div_le_div_right inRow) _

/-- The list of segments for a backup ends, and it is the run by name from the segment of the
first LSN to that of the last, in order and with the segment of every LSN between. -/
theorem pgLsnRangeToWalSegmentList_chain {timeline lsnStart lsnStop : Nat}
    (h : Segmented pgVersion walSegmentSize) (timelineFits : timeline < 2 ^ 32)
    (ordered : lsnStart ≤ lsnStop) (fits : lsnStop < 2 ^ 64)
    (realStart : ¬ InFF pgVersion walSegmentSize lsnStart)
    (realStop : ¬ InFF pgVersion walSegmentSize lsnStop)
    (noWrap : walSegmentSize = 1 → lsnStart / 2 ^ 32 = lsnStop / 2 ^ 32) :
    ∃ count list,
      list = walSegmentRange (pgLsnToWalSegment timeline walSegmentSize lsnStart) walSegmentSize
        pgVersion (count + 1) ∧
      Returns (pgLsnRangeToWalSegmentList pgVersion timeline lsnStart lsnStop walSegmentSize) list ∧
      list.getLast? = some (pgLsnToWalSegment timeline walSegmentSize lsnStop) ∧
      list.Pairwise (· < ·) ∧
      ∀ lsn, lsnStart ≤ lsn → lsn ≤ lsnStop → ¬ InFF pgVersion walSegmentSize lsn →
        pgLsnToWalSegment timeline walSegmentSize lsn ∈ list := by
  have pos := h.perMajor_pos
  obtain ⟨startMajor, startMinor⟩ := lsnPlace_parts h realStart
  obtain ⟨stopMajor, stopMinor⟩ := lsnPlace_parts h realStop
  obtain ⟨count, whole⟩ := Nat.exists_eq_add_of_le (lsnPlace_mono h realStart ordered)
  have lastFits : lsnPlace (perMajor pgVersion walSegmentSize) walSegmentSize lsnStop /
      perMajor pgVersion walSegmentSize < 2 ^ 32 := by
    rw [stopMajor]
    omega
  -- the numbers of every place before the last stay in 32 bits
  have nexts : ∀ p, lsnPlace (perMajor pgVersion walSegmentSize) walSegmentSize lsnStart ≤ p →
      p < lsnPlace (perMajor pgVersion walSegmentSize) walSegmentSize lsnStart + count →
      HasNext pgVersion walSegmentSize p := by
    intro p low high
    have toLast := Nat.div_le_div_right (c := perMajor pgVersion walSegmentSize)
      (show p + 1 ≤ lsnPlace (perMajor pgVersion walSegmentSize) walSegmentSize lsnStop by omega)
    refine ⟨toLast.trans_lt lastFits, fun one => ?_⟩
    have fromFirst := Nat.div_le_div_right (c := perMajor pgVersion walSegmentSize) low
    have same := noWrap one
    rcases place_next p pos with ⟨-, major, -⟩ | ⟨inside, -⟩
    · omega
    · exact inside
  have range := walSegmentRange_places timelineFits h nexts
  have ends := (@loop_places _ _ timeline h _ _ nexts
    [pgLsnToWalSegment timeline walSegmentSize lsnStart]).returns
  rw [nameAt_lsnPlace timeline h realStart] at range
  rw [← whole, startMajor, startMinor, stopMajor, stopMinor,
    ← nameAt_lsnPlace timeline h realStart, List.singleton_append, ← List.map_cons,
    ← List.range'_succ, ← range] at ends
  refine ⟨count, _, rfl, ?_, ?_, ?_, ?_⟩
  · rw [nameAt_lsnPlace timeline h realStart] at ends
    exact ends
  · rw [range, List.getLast?_map, List.getLast?_range', if_neg (Nat.succ_ne_zero count),
      ← nameAt_lsnPlace timeline h realStop, whole]
    rfl
  · rw [range, List.pairwise_map]
    refine List.Pairwise.imp_of_mem ?_ List.pairwise_lt_range'
    intro p q _ inRange less
    rw [List.mem_range'_1] at inRange
    refine nameAt_lt pos perMajor_le ?_ less
    exact (Nat.div_le_div_right (by omega)).trans_lt lastFits
  · intro lsn low high real
    rw [range, ← nameAt_lsnPlace timeline h real]
    refine List.mem_map_of_mem ?_
    rw [List.mem_range'_1]
    have above := lsnPlace_mono h realStart low
    have below := lsnPlace_mono h real high
    omega

end Lsns

/-! ## At the ends of the numbers -/

theorem pgLsnRangeToWalSegmentList_chain_overflow :
    ∃ count list,
      list = walSegmentRange (pgLsnToWalSegment 1 (2 ^ 24) 0xFE000000) (2 ^ 24) 140000
        (count + 1) ∧
      Returns (pgLsnRangeToWalSegmentList 140000 1 0xFE000000 (2 ^ 32) (2 ^ 24)) list ∧
      list.getLast? = some (pgLsnToWalSegment 1 (2 ^ 24) (2 ^ 32)) ∧
      list.Pairwise (· < ·) ∧
      ∀ lsn, 0xFE000000 ≤ lsn → lsn ≤ 2 ^ 32 → ¬ InFF 140000 (2 ^ 24) lsn →
        pgLsnToWalSegment 1 (2 ^ 24) lsn ∈ list :=
  pgLsnRangeToWalSegmentList_chain ⟨by decide, by decide, by decide⟩ (by decide) (by decide)
    (by decide) (fun inFF => absurd inFF.1 (by decide)) (fun inFF => absurd inFF.1 (by decide))
    (by decide)

/-- With segments of one byte the minor number wraps before it is compared, and the loop does
not end. An LSN in a segment that an old version does not have is in no segment of the list. -/
theorem pgLsnRangeToWalSegmentList_wraps :
    Hangs (pgLsnRangeToWalSegmentList 110000 1 (2 ^ 32 - 1) (2 ^ 32) 1) ∧
      ∃ list, Returns (pgLsnRangeToWalSegmentList 90200 1 0xFE000000 (2 ^ 32) (2 ^ 24)) list ∧
        pgLsnToWalSegment 1 (2 ^ 24) 0xFF000000 ∉ list := by
  constructor
  · refine LoopHangs.hangs (LoopHangs.stay (P := fun s => s.startMajor = 0) ?_ rfl)
    intro _ s low
    right
    refine ⟨⟨0, (s.startMinor + 1) % 2 ^ 32,
      s.result ++ [walName 1 0 ((s.startMinor + 1) % 2 ^ 32)]⟩, ?_, rfl⟩
    have fits := Nat.mod_lt (s.startMinor + 1) (show 0 < 2 ^ 32 by decide)
    have inside : ¬ ((decide (110000 ≤ 90200) && (s.startMinor + 1) % 2 ^ 32 == 0xFF) ||
        (!decide (110000 ≤ 90200) && decide ((s.startMinor + 1) % 2 ^ 32 > 0xFFFFFFFF / 1))) = true := by
      simp
      omega
    rw [rangeRound, low]
    dsimp only
    rw [if_neg (fun both => absurd both.1 (by decide)), if_neg inside]
  · refine ⟨[walName 1 0 0xFE, walName 1 1 0], ?_, by decide⟩
    have run : pgLsnRangeToWalSegmentList 90200 1 0xFE000000 (2 ^ 32) (2 ^ 24) 2 =
        .ok [walName 1 0 0xFE, walName 1 1 0] := by rfl
    exact (pgLsnRangeToWalSegmentList_mono _ _ _ _ _).returns run

end WalRange
