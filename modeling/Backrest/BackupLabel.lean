import Backrest.ExpireCommand

/-!
# The label of a new backup

A label has the time of a full backup and, for a backup that depends on it, a time of its
own. Labels are compared as text. A new label is later than all others, and this says which
other labels can still have the time of the new one.
-/

namespace BackupLabel

open Text LexOrder BackupCommon FileTree Repository ExpireCommand

/-! ## The code -/

section Code

variable (timeText : Int → Str) (storage : Storage)

def formatTimeError : Error := ⟨.assertError, "unable to format time".toList⟩

/-- `backupLabelFormat` with its clock. The buffer holds fifteen characters. -/
def backupLabelFormatAt (type : BackupType) (backupLabelPrior : Option Str) (timestamp : Int) :
    Except Error Str :=
  if (timeText timestamp).length ≤ 15 then
    .ok (backupLabelFormat type backupLabelPrior (timeText timestamp))
  else .error formatTimeError

def backupNames : List Str := storageList storage [storageRepoBackup] labelAny

/-- The history manifests of the newest year. -/
def historyNames : List Str :=
  match (strLstSort (storageList storage [storageRepoBackup, backupPathHistory] historyYearName)
      .desc).head? with
  | none => []
  | some historyYear => storageList storage (historyPath historyYear) historyFileName

def backupLabelLatest : Option Str :=
  match (strLstSort (backupNames storage) .desc).head?,
      (strLstSort (historyNames storage) .desc).head? with
  | backupLabel, none => backupLabel
  | none, some historyLabel => some historyLabel
  | some backupLabel, some historyLabel =>
    if backupLabel < historyLabel then some historyLabel else some backupLabel

def labelNotLaterError (label latest : Str) : Error :=
  ⟨.formatError, "new backup label '".toList ++ label ++
    "' is not later than latest backup label '".toList ++ latest ++
    "'\nHINT: has the timezone changed?\nHINT: is there clock skew?".toList⟩

def backupLabelCreate (type : BackupType) (backupLabelPrior : Option Str) (timestamp : Int) :
    Except Error Str :=
  match backupLabelFormatAt timeText type backupLabelPrior timestamp with
  | .error e => .error e
  | .ok result =>
    match backupLabelLatest storage with
    | none => .ok result
    | some latest =>
      if result ≤ latest then
        -- Two backups may have run very close together, so one second is added
        match backupLabelFormatAt timeText type backupLabelPrior (timestamp + 1) with
        | .error e => .error e
        | .ok result =>
          if result ≤ latest then .error (labelNotLaterError result latest) else .ok result
      else .ok result

end Code

/-! ## Labels -/

section Label

/-- `YYYYMMDD-HHMMSS`. -/
def DateTime (time : Str) : Prop := matchDateTime time = some []

structure Label where
  /-- The time of the full backup. -/
  full : Str
  /-- The time and the kind of a backup that depends on it. -/
  dependent : Option (Str × Char)
  fullTime : DateTime full
  dependentTime : ∀ time kind, dependent = some (time, kind) →
    DateTime time ∧ (kind = 'D' ∨ kind = 'I')

def Label.text (label : Label) : Str :=
  match label.dependent with
  | none => label.full ++ ['F']
  | some (time, kind) => label.full ++ 'F' :: '_' :: (time ++ [kind])

/-- The time of the backup itself. -/
def Label.own (label : Label) : Str :=
  match label.dependent with
  | none => label.full
  | some (time, _) => time

def Label.timestamps (label : Label) : List Str :=
  label.full :: (label.dependent.map (fun dependent => dependent.1)).toList

theorem DateTime.length {time : Str} (dateTime : DateTime time) : time.length = 15 := by
  unfold DateTime at dateTime
  rw [matchDateTime] at dateTime
  obtain ⟨afterDate, date, h⟩ := Option.bind_eq_some_iff.mp dateTime
  obtain ⟨afterDash, dash, clock⟩ := Option.bind_eq_some_iff.mp h
  obtain ⟨days, rfl, lengthDays, -⟩ := matchN_some date
  obtain ⟨seconds, rfl, lengthSeconds, -⟩ := matchN_some clock
  rw [matchChar_some dash]
  simp [lengthDays, lengthSeconds]

/-- An earlier label belongs to an earlier full backup, or to the same one and was made
before. -/
theorem Label.lt_cases {a b : Label} (less : a.text < b.text) :
    a.full < b.full ∨ a.full = b.full ∧ ∃ time kind, b.dependent = some (time, kind) ∧
      ∀ time' kind', a.dependent = some (time', kind') → time' < time ∨ time' = time ∧ kind' < kind := by
  obtain ⟨full, dependent, fullTime, dependentTime⟩ := a
  obtain ⟨full', dependent', fullTime', dependentTime'⟩ := b
  have same : full.length = full'.length := fullTime.length.trans fullTime'.length.symm
  cases dependent with
  | none =>
    cases dependent' with
    | none =>
      rcases (append_lt_append_iff same).mp less with earlier | ⟨-, absurd_⟩
      · exact .inl earlier
      · exact absurd absurd_ (lt_irrefl _)
    | some both =>
      obtain ⟨time, kind⟩ := both
      rcases (append_lt_append_iff same).mp less with earlier | ⟨equal, -⟩
      · exact .inl earlier
      · exact .inr ⟨equal, time, kind, rfl, nofun⟩
  | some both =>
    obtain ⟨time, kind⟩ := both
    cases dependent' with
    | none =>
      rcases (append_lt_append_iff same).mp less with earlier | ⟨-, absurd_⟩
      · exact .inl earlier
      · rw [List.cons_lt_cons_iff] at absurd_
        rcases absurd_ with wrong | ⟨-, wrong⟩
        · exact absurd wrong (lt_irrefl _)
        · exact absurd wrong (not_lt_of_ge (nil_le _))
    | some both' =>
      obtain ⟨time', kind'⟩ := both'
      have sameTime : time.length = time'.length :=
        (dependentTime time kind rfl).1.length.trans (dependentTime' time' kind' rfl).1.length.symm
      rcases (append_lt_append_iff same).mp less with earlier | ⟨equal, later⟩
      · exact .inl earlier
      · refine .inr ⟨equal, time', kind', rfl, ?_⟩
        intro other otherKind isOther
        cases isOther
        have front : ['F', '_'] ++ (time ++ [kind]) < ['F', '_'] ++ (time' ++ [kind']) := later
        rw [append_lt_append_left_iff, append_lt_append_iff sameTime] at front
        rcases front with earlier | ⟨equalTime, kinds⟩
        · exact .inl earlier
        · refine .inr ⟨equalTime, ?_⟩
          rcases List.cons_lt_cons_iff.mp kinds with less | ⟨-, wrong⟩
          · exact less
          · exact absurd wrong (lt_irrefl _)

theorem Label.own_of_text {a b : Label} (same : a.text = b.text) : a.own = b.own := by
  obtain ⟨full, dependent, fullTime, dependentTime⟩ := a
  obtain ⟨full', dependent', fullTime', dependentTime'⟩ := b
  have length : full.length = full'.length := fullTime.length.trans fullTime'.length.symm
  cases dependent with
  | none =>
    cases dependent' with
    | none => exact (List.append_inj same length).1
    | some both => exact absurd (List.append_inj same length).2 (by simp)
  | some both =>
    cases dependent' with
    | none => exact absurd (List.append_inj same length).2 (by simp)
    | some both' =>
      have rest := (List.append_inj same length).2
      simp only [List.cons.injEq, true_and] at rest
      exact (List.append_inj' rest rfl).1

end Label

/-! ## The new label -/

section New

variable {timeText : Int → Str} {storage : Storage} {type : BackupType} {prior : Option Label}
  {timestamp : Int}

def newLabel (type : BackupType) (prior : Option Label) (time : Str) (dateTime : DateTime time) :
    Option Label :=
  match type, prior with
  | .full, none => some ⟨time, none, dateTime, nofun⟩
  | .diff, some prior => some ⟨prior.full, some (time, 'D'), prior.fullTime, by
      rintro time kind ⟨⟩
      exact ⟨dateTime, .inl rfl⟩⟩
  | .incr, some prior => some ⟨prior.full, some (time, 'I'), prior.fullTime, by
      rintro time kind ⟨⟩
      exact ⟨dateTime, .inr rfl⟩⟩
  | _, _ => none

theorem strSubN_text (label : Label) : strSubN label.text 0 16 = label.full ++ ['F'] := by
  obtain ⟨full, dependent, fullTime, dependentTime⟩ := label
  have long := fullTime.length
  cases dependent with
  | none =>
    simp only [Label.text, strSubN, List.drop_zero]
    rw [List.take_of_length_le]
    rw [List.length_append, long]
    exact Nat.le_refl _
  | some both =>
    simp only [Label.text, strSubN, List.drop_zero]
    rw [List.take_append, long, List.take_of_length_le (by omega)]
    rfl

theorem newLabel_text {time : Str} {dateTime : DateTime time} {label : Label}
    (new : newLabel type prior time dateTime = some label) :
    label.text = backupLabelFormat type (prior.map Label.text) time ∧ label.own = time := by
  cases type with
  | full =>
    cases prior with
    | none =>
      cases new
      exact ⟨rfl, rfl⟩
    | some prior => cases new
  | diff =>
    cases prior with
    | none => cases new
    | some prior =>
      cases new
      refine ⟨?_, rfl⟩
      change prior.full ++ 'F' :: '_' :: (time ++ ['D']) =
        strSubN prior.text 0 16 ++ '_' :: time ++ ['D']
      rw [strSubN_text]
      simp
  | incr =>
    cases prior with
    | none => cases new
    | some prior =>
      cases new
      refine ⟨?_, rfl⟩
      change prior.full ++ 'F' :: '_' :: (time ++ ['I']) =
        strSubN prior.text 0 16 ++ '_' :: time ++ ['I']
      rw [strSubN_text]
      simp

def InRepository (storage : Storage) (label : Label) : Prop :=
  label.text ∈ backupNames storage ∨ label.text ++ ".manifest.gz".toList ∈ historyNames storage

def Later (storage : Storage) (label : Str) : Prop :=
  ∀ name, name ∈ backupNames storage ∨ name ∈ historyNames storage → name < label

def Unique (storage : Storage) (label : Str) : Prop :=
  ∃ new : Label, new.text = label ∧
    ∀ old, InRepository storage old → old.text < label ∧ new.own ∉ old.timestamps

def Clash (type : BackupType) (prior : Option Label) (time : Str) (old : Label) : Prop :=
  match prior with
  | none => old.full < time ∧ ∃ kind, old.dependent = some (time, kind)
  | some prior =>
    (∃ kind, old.dependent = some (time, kind) ∧
      (old.full < prior.full ∨ old.full = prior.full ∧ kind = 'D' ∧ type = .incr)) ∨
    old.full = time ∧ time ≤ prior.full

/-- The time that the label is made with: the given one, or one second later. -/
def LabelTime (timeText : Int → Str) (storage : Storage) (type : BackupType) (prior : Option Label)
    (timestamp : Int) (time : Str) : Prop :=
  (timeText timestamp).length ≤ 15 ∧
    (Later storage (backupLabelFormat type (prior.map Label.text) (timeText timestamp)) ∧
        time = timeText timestamp ∨
      ¬ Later storage (backupLabelFormat type (prior.map Label.text) (timeText timestamp)) ∧
        (timeText (timestamp + 1)).length ≤ 15 ∧
        Later storage (backupLabelFormat type (prior.map Label.text) (timeText (timestamp + 1))) ∧
        time = timeText (timestamp + 1))

theorem head_desc {names : List Str} {latest : Str} (head : (strLstSort names .desc).head? = some latest) :
    latest ∈ names ∧ ∀ name ∈ names, name ≤ latest := by
  have mem : latest ∈ strLstSort names .desc := List.mem_of_head? head
  refine ⟨mem_strLstSort.mp mem, fun name isName => ?_⟩
  have sorted : (strLstSort names .desc).Pairwise (fun a b => b ≤ a) :=
    List.pairwise_reverse.mpr (strLstSort_asc_sorted names)
  have listed : name ∈ strLstSort names .desc := mem_strLstSort.mpr isName
  cases all : strLstSort names .desc with
  | nil =>
    rw [all] at listed
    exact absurd listed List.not_mem_nil
  | cons first rest =>
    rw [all] at head sorted listed
    cases head
    rcases List.mem_cons.mp listed with rfl | later
    · exact le_rfl
    · exact (List.pairwise_cons.mp sorted).1 name later

theorem head_desc_none {names : List Str} (head : (strLstSort names .desc).head? = none) :
    ∀ name, name ∉ names := by
  intro name mem
  have listed : name ∈ strLstSort names .desc := mem_strLstSort.mpr mem
  rw [List.head?_eq_none_iff.mp head] at listed
  exact absurd listed List.not_mem_nil

theorem later_iff {label : Str} :
    Later storage label ↔ ∀ latest, backupLabelLatest storage = some latest → latest < label := by
  unfold Later backupLabelLatest
  cases backups : (strLstSort (backupNames storage) .desc).head? with
  | none =>
    have noBackup := head_desc_none backups
    cases histories : (strLstSort (historyNames storage) .desc).head? with
    | none =>
      have noHistory := head_desc_none histories
      constructor
      · intro _ latest same
        cases same
      · rintro - name (mem | mem)
        · exact absurd mem (noBackup name)
        · exact absurd mem (noHistory name)
    | some history =>
      obtain ⟨mem, greatest⟩ := head_desc histories
      constructor
      · intro later latest same
        cases same
        exact later _ (.inr mem)
      · rintro less name (isName | isName)
        · exact absurd isName (noBackup name)
        · exact lt_of_le_of_lt (greatest name isName) (less history rfl)
  | some backup =>
    obtain ⟨mem, greatest⟩ := head_desc backups
    cases histories : (strLstSort (historyNames storage) .desc).head? with
    | none =>
      have noHistory := head_desc_none histories
      constructor
      · intro later latest same
        cases same
        exact later _ (.inl mem)
      · rintro less name (isName | isName)
        · exact lt_of_le_of_lt (greatest name isName) (less backup rfl)
        · exact absurd isName (noHistory name)
    | some history =>
      obtain ⟨mem', greatest'⟩ := head_desc histories
      dsimp only
      constructor
      · intro later latest same
        split at same
        · cases same
          exact later _ (.inr mem')
        · cases same
          exact later _ (.inl mem)
      · intro less name isName
        by_cases order : backup < history
        · rw [if_pos order] at less
          have last := less history rfl
          rcases isName with isName | isName
          · exact lt_of_le_of_lt (greatest name isName) (order.trans last)
          · exact lt_of_le_of_lt (greatest' name isName) last
        · rw [if_neg order] at less
          have last := less backup rfl
          rcases isName with isName | isName
          · exact lt_of_le_of_lt (greatest name isName) last
          · exact lt_of_le_of_lt (greatest' name isName) (lt_of_le_of_lt (not_lt.mp order) last)

/-- The label is made with one of two times, or there is an error. -/
theorem backupLabelCreate_ok_iff {label : Str} :
    backupLabelCreate timeText storage type (prior.map Label.text) timestamp = .ok label ↔
      ∃ time, LabelTime timeText storage type prior timestamp time ∧
        label = backupLabelFormat type (prior.map Label.text) time := by
  unfold LabelTime
  rw [later_iff, later_iff]
  unfold backupLabelCreate backupLabelFormatAt
  by_cases short : (timeText timestamp).length ≤ 15
  · rw [if_pos short]
    dsimp only
    cases backupLabelLatest storage with
    | none =>
      constructor
      · intro run
        cases run
        exact ⟨_, ⟨short, .inl ⟨nofun, rfl⟩⟩, rfl⟩
      · rintro ⟨time, ⟨-, ⟨-, rfl⟩ | ⟨notLater, -⟩⟩, rfl⟩
        · rfl
        · exact absurd nofun notLater
    | some latest =>
      have only : ∀ name : Str, (∀ last, some latest = some last → last < name) ↔ latest < name := by
        simp
      rw [only, only]
      dsimp only
      by_cases later : latest < backupLabelFormat type (prior.map Label.text) (timeText timestamp)
      · rw [if_neg (not_le_of_gt later)]
        constructor
        · intro run
          cases run
          exact ⟨_, ⟨short, .inl ⟨later, rfl⟩⟩, rfl⟩
        · rintro ⟨time, ⟨-, ⟨-, rfl⟩ | ⟨notLater, -⟩⟩, rfl⟩
          · rfl
          · exact absurd later notLater
      · rw [if_pos (not_lt.mp later)]
        by_cases short' : (timeText (timestamp + 1)).length ≤ 15
        · rw [if_pos short']
          dsimp only
          by_cases later' :
              latest < backupLabelFormat type (prior.map Label.text) (timeText (timestamp + 1))
          · rw [if_neg (not_le_of_gt later')]
            constructor
            · intro run
              cases run
              exact ⟨_, ⟨short, .inr ⟨later, short', later', rfl⟩⟩, rfl⟩
            · rintro ⟨time, ⟨-, ⟨isLater, -⟩ | ⟨-, -, -, rfl⟩⟩, rfl⟩
              · exact absurd isLater later
              · rfl
          · rw [if_pos (not_lt.mp later')]
            constructor
            · exact fun run => by cases run
            · rintro ⟨time, ⟨-, ⟨isLater, -⟩ | ⟨-, -, isLater, -⟩⟩, -⟩
              · exact absurd isLater later
              · exact absurd isLater later'
        · rw [if_neg short']
          constructor
          · exact fun run => by cases run
          · rintro ⟨time, ⟨-, ⟨isLater, -⟩ | ⟨-, isShort, -⟩⟩, -⟩
            · exact absurd isLater later
            · exact absurd isShort short'
  · rw [if_neg short]
    constructor
    · exact fun run => by cases run
    · rintro ⟨time, ⟨isShort, -⟩, -⟩
      exact absurd isShort short

theorem mem_timestamps_iff {time : Str} {dateTime : DateTime time} {new old : Label}
    (isNew : newLabel type prior time dateTime = some new) (earlier : old.text < new.text) :
    time ∈ old.timestamps ↔ Clash type prior time old := by
  have ordered := Label.lt_cases earlier
  have stamps : time ∈ old.timestamps ↔ old.full = time ∨ ∃ kind, old.dependent = some (time, kind) := by
    obtain ⟨full, dependent, -, -⟩ := old
    cases dependent with
    | none => simp [Label.timestamps, eq_comm]
    | some both =>
      obtain ⟨own, kind⟩ := both
      simp [Label.timestamps, eq_comm]
  rw [stamps]
  cases prior with
  | none =>
    cases type with
    | full =>
      cases isNew
      have before : old.full < time := by
        rcases ordered with before | ⟨-, _, _, wrong, -⟩
        · exact before
        · cases wrong
      constructor
      · rintro (same | dependent)
        · exact absurd same (ne_of_lt before)
        · exact ⟨before, dependent⟩
      · exact fun clash => .inr clash.2
    | diff => cases isNew
    | incr => cases isNew
  | some prior =>
    obtain ⟨sameFull, own, isOwn, kinds⟩ : new.full = prior.full ∧ ∃ own, new.dependent = some (time, own) ∧
        (own = 'D' ∨ own = 'I' ∧ type = .incr) := by
      cases type with
      | full => cases isNew
      | diff =>
        cases isNew
        exact ⟨rfl, 'D', rfl, .inl rfl⟩
      | incr =>
        cases isNew
        exact ⟨rfl, 'I', rfl, .inr ⟨rfl, rfl⟩⟩
    rw [sameFull] at ordered
    constructor
    · rintro (same | ⟨kind, dependent⟩)
      · refine .inr ⟨same, ?_⟩
        rw [← same]
        rcases ordered with before | ⟨equal, -⟩
        · exact before.le
        · exact equal.le
      · refine .inl ⟨kind, dependent, ?_⟩
        rcases ordered with before | ⟨equal, time', own', isOwn', earlierOwn⟩
        · exact .inl before
        · right
          cases isOwn.symm.trans isOwn'
          have less : kind < own := by
            rcases earlierOwn time kind dependent with less | ⟨-, less⟩
            · exact absurd less (lt_irrefl _)
            · exact less
          obtain ⟨-, oldKinds⟩ := old.dependentTime time kind dependent
          rcases kinds with rfl | ⟨rfl, isIncr⟩
          · rcases oldKinds with rfl | rfl
            · exact absurd less (lt_irrefl _)
            · exact absurd less (by decide)
          · rcases oldKinds with rfl | rfl
            · exact ⟨equal, rfl, isIncr⟩
            · exact absurd less (lt_irrefl _)
    · rintro (⟨kind, dependent, -⟩ | ⟨same, -⟩)
      · exact .inr ⟨kind, dependent⟩
      · exact .inl same

/-- A label that is made is later than all others, and has a time of its own just when no
earlier backup clashes with it. -/
theorem backupLabelCreate_unique_iff (args : type = .full ↔ prior = none)
    (positive : 0 < timestamp)
    (clock : ∀ t, 0 < t → (timeText t).length ≤ 15 → DateTime (timeText t)) :
    (∀ label, backupLabelCreate timeText storage type (prior.map Label.text) timestamp = .ok label →
        Unique storage label) ↔
      ∀ time, LabelTime timeText storage type prior timestamp time →
        ∀ old, InRepository storage old → ¬ Clash type prior time old := by
  have newOf : ∀ time, LabelTime timeText storage type prior timestamp time →
      ∃ dateTime : DateTime time, ∃ new, newLabel type prior time dateTime = some new ∧
        Later storage new.text := by
    intro time labelTime
    have dateTime : DateTime time := by
      rcases labelTime with ⟨short, ⟨-, rfl⟩ | ⟨-, short', -, rfl⟩⟩
      · exact clock _ positive short
      · exact clock _ (by omega) short'
    have later : Later storage (backupLabelFormat type (prior.map Label.text) time) := by
      rcases labelTime with ⟨-, ⟨later, rfl⟩ | ⟨-, -, later, rfl⟩⟩
      · exact later
      · exact later
    have isSome : ∃ new, newLabel type prior time dateTime = some new := by
      cases type with
      | full =>
        obtain rfl := args.mp rfl
        exact ⟨_, rfl⟩
      | diff =>
        cases prior with
        | none => exact absurd (args.mpr rfl) (by decide)
        | some prior => exact ⟨_, rfl⟩
      | incr =>
        cases prior with
        | none => exact absurd (args.mpr rfl) (by decide)
        | some prior => exact ⟨_, rfl⟩
    obtain ⟨new, isNew⟩ := isSome
    refine ⟨dateTime, new, isNew, ?_⟩
    rw [(newLabel_text isNew).1]
    exact later
  have before : ∀ {label : Str} {old : Label}, Later storage label → InRepository storage old →
      old.text < label := by
    rintro label old later (backup | history)
    · exact later _ (.inl backup)
    · exact lt_of_le_of_lt (front_le (List.prefix_append _ _)) (later _ (.inr history))
  constructor
  · intro unique time labelTime old inRepository clash
    obtain ⟨dateTime, new, isNew, later⟩ := newOf time labelTime
    obtain ⟨sameText, sameOwn⟩ := newLabel_text isNew
    obtain ⟨new', isText, apart⟩ := unique _ (backupLabelCreate_ok_iff.mpr ⟨time, labelTime, rfl⟩)
    have sameLabel : new'.own = new.own := Label.own_of_text (isText.trans sameText.symm)
    obtain ⟨earlier, notOwn⟩ := apart old inRepository
    rw [← sameText] at earlier
    rw [sameLabel, sameOwn] at notOwn
    exact notOwn ((mem_timestamps_iff isNew earlier).mpr clash)
  · intro noClash label run
    obtain ⟨time, labelTime, rfl⟩ := backupLabelCreate_ok_iff.mp run
    obtain ⟨dateTime, new, isNew, later⟩ := newOf time labelTime
    obtain ⟨sameText, sameOwn⟩ := newLabel_text isNew
    refine ⟨new, sameText, fun old inRepository => ?_⟩
    rw [sameText] at later
    have earlier := before later inRepository
    refine ⟨earlier, ?_⟩
    rw [sameOwn]
    intro mem
    rw [← sameText] at earlier
    exact noClash time labelTime old inRepository ((mem_timestamps_iff isNew earlier).mp mem)

end New

/-! ## Two backups in one second -/

def fullLabel : Label := ⟨"20200101-000000".toList, none, rfl, nofun⟩

def incrLabel : Label :=
  ⟨"20200101-000000".toList, some ("20200103-000000".toList, 'I'), rfl, by
    rintro time kind ⟨⟩
    exact ⟨rfl, .inr rfl⟩⟩

/-- A full backup and an incremental backup that depends on it. -/
def labelStorage : Storage :=
  ⟨[([storageRepoBackup, "20200101-000000F".toList], .dir),
    ([storageRepoBackup, "20200101-000000F_20200103-000000I".toList], .dir)]⟩

def labelTimeText (timestamp : Int) : Str :=
  if timestamp ≤ 100 then "20200103-000000".toList else "20200103-000001".toList

theorem labelTimeText_dateTime (t : Int) : DateTime (labelTimeText t) := by
  unfold labelTimeText
  split <;> rfl

theorem labelStorage_own {old : Label} (inRepository : InRepository labelStorage old) :
    old.own = fullLabel.own ∨ old.own = incrLabel.own := by
  have names : backupNames labelStorage =
      ["20200101-000000F".toList, "20200101-000000F_20200103-000000I".toList] := by decide
  have history : historyNames labelStorage = [] := by decide
  rcases inRepository with backup | manifest
  · rw [names] at backup
    rcases List.mem_cons.mp backup with isFull | rest
    · exact .inl (Label.own_of_text isFull)
    · exact .inr (Label.own_of_text (List.mem_singleton.mp rest))
  · rw [history] at manifest
    exact absurd manifest List.not_mem_nil

/-- A second later the time is new. -/
theorem backupLabelCreate_unique_later :
    backupLabelCreate labelTimeText labelStorage .full none 101 = .ok "20200103-000001F".toList ∧
      Unique labelStorage "20200103-000001F".toList := by
  have created : backupLabelCreate labelTimeText labelStorage .full none 101 =
      .ok "20200103-000001F".toList := by decide
  refine ⟨created, (@backupLabelCreate_unique_iff labelTimeText labelStorage .full none 101
    (by decide) (by decide) (fun t _ _ => labelTimeText_dateTime t)).mpr ?_ _ created⟩
  rintro time labelTime old inRepository ⟨-, kind, dependent⟩
  have isTime : time = "20200103-000001".toList := by
    rcases labelTime with ⟨-, ⟨-, rfl⟩ | ⟨-, -, -, rfl⟩⟩ <;> decide
  have own : old.own = time := by
    rw [Label.own, dependent]
  rcases labelStorage_own inRepository with same | same
  · exact absurd (isTime.symm.trans (own.symm.trans same)) (by decide)
  · exact absurd (isTime.symm.trans (own.symm.trans same)) (by decide)

/-- The new full backup gets the time of the incremental backup. -/
theorem backupLabelCreate_not_unique :
    backupLabelCreate labelTimeText labelStorage .full none 100 = .ok "20200103-000000F".toList ∧
      InRepository labelStorage incrLabel ∧ "20200103-000000".toList ∈ incrLabel.timestamps ∧
      ¬ Unique labelStorage "20200103-000000F".toList := by
  have inRepository : InRepository labelStorage incrLabel := .inl (by decide)
  refine ⟨by decide, inRepository, by decide, ?_⟩
  rintro ⟨new, isText, apart⟩
  have same : new.own = "20200103-000000".toList :=
    Label.own_of_text (b := ⟨"20200103-000000".toList, none, rfl, nofun⟩) isText
  have notOwn := (apart incrLabel inRepository).2
  rw [same] at notOwn
  exact notOwn (by decide)

end BackupLabel
