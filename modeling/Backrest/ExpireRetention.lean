import Mathlib.Data.List.Induction
import Backrest.BackupRun
import Backrest.Newest

/-!
# Which backups retention leaves

Each retention rule names backups to expire, and every backup that depends on a
named one goes with it. When priors are listed and older, what is left is
described by the named labels alone: a backup stays when it is not named and
does not depend on a named one. The rules for full, differential and time-based
retention are read off from that.
-/

namespace ExpireRetention

open Text LexOrder BackupCommon BackupInfo ForwardClosure FileTree Effects Repository Expire
open BackupRun Newest

section Expired

/-- Every prior is listed and older in label order. -/
structure Chained (info : InfoBackup) : Prop where
  ordered : Ordered info.backup
  prior : ∀ data ∈ info.backup, ∀ p, data.backupPrior = some p →
    (∃ d ∈ info.backup, d.backupLabel = p) ∧ p < data.backupLabel

/-- `x` is the label `y` or one of the priors that it goes back to. -/
def Depends (info : InfoBackup) (x y : Str) : Prop :=
  DependsOn (·.backupLabel) (·.backupPrior) info.backup x y

variable {info cur : InfoBackup}

theorem Chained.parentsFirst (chained : Chained info) :
    ParentsFirst (·.backupLabel) (·.backupPrior) info.backup :=
  parentsFirst_of_ordered chained.ordered (fun d hd p hp => (chained.prior d hd p hp).2)

theorem Chained.nodup (chained : Chained info) : (info.backup.map (·.backupLabel)).Nodup :=
  List.pairwise_map.mpr (chained.ordered.imp (fun h => h.ne))

theorem Chained.eq_of_label (chained : Chained info) {a b : InfoBackupData} (ha : a ∈ info.backup)
    (hb : b ∈ info.backup) (same : a.backupLabel = b.backupLabel) : a = b :=
  List.inj_on_of_nodup_map chained.nodup ha hb same

structure Expired (info : InfoBackup) (named : Str → Prop) (cur : InfoBackup) : Prop where
  infoPg : cur.infoPg = info.infoPg
  sublist : cur.backup.Sublist info.backup
  kept : ∀ data ∈ info.backup,
    data ∈ cur.backup ↔ ∀ x, named x → ¬ Depends info x data.backupLabel

theorem Expired.none (info : InfoBackup) : Expired info (fun _ => False) info :=
  ⟨rfl, List.Sublist.refl _, fun _ hd => ⟨fun _ _ h => h.elim, fun _ => hd⟩⟩

variable {named : Str → Prop}

theorem Expired.congr {named' : Str → Prop} (h : Expired info named cur)
    (same : ∀ x, named x ↔ named' x) : Expired info named' cur := by
  refine ⟨h.infoPg, h.sublist, fun data hd => ?_⟩
  rw [h.kept data hd]
  simp only [same]

theorem Expired.prior_kept (h : Expired info named cur) {data prior : InfoBackupData}
    (hd : data ∈ cur.backup) (hp : prior ∈ info.backup)
    (edge : data.backupPrior = some prior.backupLabel) : prior ∈ cur.backup := by
  have listed := h.sublist.subset hd
  refine (h.kept prior hp).mpr (fun x hx depends => ?_)
  exact (h.kept data listed).mp hd x hx (depends.tail ⟨data, listed, rfl, edge⟩)

theorem Expired.chained (h : Expired info named cur) (chained : Chained info) : Chained cur := by
  refine ⟨chained.ordered.sublist h.sublist, fun data hd p hp => ?_⟩
  obtain ⟨⟨prior, listed, rfl⟩, older⟩ := chained.prior data (h.sublist.subset hd) p hp
  exact ⟨⟨prior, h.prior_kept hd listed hp, rfl⟩, older⟩

theorem Expired.depends_iff (h : Expired info named cur) (chained : Chained info)
    {data : InfoBackupData} (hd : data ∈ cur.backup) {x : Str} :
    Depends cur x data.backupLabel ↔ Depends info x data.backupLabel := by
  constructor
  · intro depends
    refine Relation.ReflTransGen.mono (fun a b edge => ?_) _ _ depends
    obtain ⟨d, listed, rest⟩ := edge
    exact ⟨d, h.sublist.subset listed, rest⟩
  · intro depends
    have walk : ∀ y, Depends info x y → ∀ d ∈ cur.backup, d.backupLabel = y → Depends cur x y := by
      intro y depends
      induction depends with
      | refl => exact fun _ _ _ => Relation.ReflTransGen.refl
      | @tail b c _ edge ih =>
        intro d hd hy
        obtain ⟨a, ha, hc, hp⟩ := edge
        have hp : a.backupPrior = some b := hp
        have same : a = d := chained.eq_of_label ha (h.sublist.subset hd) (hc.trans hy.symm)
        subst same
        obtain ⟨⟨prior, listed, rfl⟩, -⟩ := chained.prior a ha b hp
        exact (ih prior (h.prior_kept hd listed hp) rfl).tail ⟨a, hd, hc, hp⟩
    exact walk _ depends data hd rfl

theorem exec_expireLogged (info : InfoBackup) (kind : ExpireKind) (repoIdx n : Nat) (label : Str)
    (w : World) :
    ∃ n' w', exec (expireLogged kind repoIdx (info, n) label) w =
        (.ok ((strLstSort (infoBackupDataDependentList info label) .desc).foldl
          infoBackupDataDelete info, n'), w') ∧ w'.config = w.config := by
  have config : ∀ (labels : List Str) (v : World),
      (labels.foldl (removeManifests repoIdx) v).config = v.config := by
    intro labels
    induction labels with
    | nil => exact fun _ => rfl
    | cons l rest ih =>
      intro v
      rw [List.foldl_cons, ih, removeManifests, write_config, write_config]
  rw [expireLogged, exec_bind_of_ok (exec_expireBackup info label repoIdx w)]
  exact ⟨_, _, rfl, config _ w⟩

theorem foldl_delete_infoPg (labels : List Str) (info : InfoBackup) :
    (labels.foldl infoBackupDataDelete info).infoPg = info.infoPg := by
  induction labels generalizing info with
  | nil => rfl
  | cons l rest ih => exact ih _

theorem Expired.step (h : Expired info named cur) (chained : Chained info) (label : Str) :
    Expired info (fun x => named x ∨ x = label)
      ((strLstSort (infoBackupDataDependentList cur label) .desc).foldl
        infoBackupDataDelete cur) := by
  have after := h.chained chained
  have left := foldl_delete_backup after.ordered
    (strLstSort (infoBackupDataDependentList cur label) .desc)
  refine ⟨(foldl_delete_infoPg _ _).trans h.infoPg, ?_, fun data hd => ?_⟩
  · rw [left]
    exact List.filter_sublist.trans h.sublist
  · have removed (hc : data ∈ cur.backup) :
        data.backupLabel ∈ strLstSort (infoBackupDataDependentList cur label) .desc ↔
          Depends info label data.backupLabel := by
      rw [mem_strLstSort, ← h.depends_iff chained hc]
      exact mem_collect_iff after.parentsFirst
    rw [left, List.mem_filter, decide_eq_true_eq, h.kept data hd]
    constructor
    · rintro ⟨unnamed, kept⟩ x (hx | rfl)
      · exact unnamed x hx
      · exact fun depends => kept ((removed ((h.kept data hd).mpr unnamed)).mpr depends)
    · intro unnamed
      have before : ∀ x, named x → ¬ Depends info x data.backupLabel :=
        fun x hx => unnamed x (Or.inl hx)
      refine ⟨before, fun mem => ?_⟩
      exact unnamed label (Or.inr rfl) ((removed ((h.kept data hd).mpr before)).mp mem)

theorem expireLogged_foldlM (chained : Chained info) (kind : ExpireKind) (repoIdx : Nat)
    (labels : List Str) (h : Expired info named cur) (n : Nat) (w : World) :
    ∃ after n' w', exec (labels.foldlM (expireLogged kind repoIdx) (cur, n)) w =
        (.ok (after, n'), w') ∧ w'.config = w.config ∧
      Expired info (fun x => named x ∨ x ∈ labels) after := by
  induction labels generalizing cur named n w with
  | nil => exact ⟨cur, n, w, rfl, rfl, h.congr (by simp)⟩
  | cons label rest ih =>
    obtain ⟨n₁, w₁, first, config₁⟩ := exec_expireLogged cur kind repoIdx n label w
    obtain ⟨after, n₂, w₂, run, config₂, expired⟩ := ih (h.step chained label) n₁ w₁
    refine ⟨after, n₂, w₂, ?_, config₂.trans config₁, expired.congr (fun x => ?_)⟩
    · rw [List.foldlM_cons, exec_bind_of_ok first, run]
    · rw [List.mem_cons, or_assoc]

end Expired

section Count
variable {info cur after : InfoBackup} {fullRetention differentialRetention : Nat}

structure Typed (info : InfoBackup) : Prop where
  full : ∀ data ∈ info.backup, labelFull data.backupLabel = true → data.backupPrior = none
  diff : ∀ data ∈ info.backup, labelFullDiff data.backupLabel = true →
    labelFull data.backupLabel = false →
      ∃ p, data.backupPrior = some p ∧ labelFull p = true

def fullRetained (info : InfoBackup) (fullRetention : Nat) (label : Str) : Bool :=
  fullRetention = 0 || newer (infoBackupDataLabelList info labelFull) label < fullRetention

def remaining (info : InfoBackup) (fullRetention : Nat) : List Str :=
  (info.backup.filter (fun data => labelFullDiff data.backupLabel &&
    fullRetained info fullRetention
      (if labelFull data.backupLabel then data.backupLabel else data.backupPrior.getD []))).map
    (·.backupLabel)

/-- Is the backup one of the newest of those, as many as differential retention says? -/
def diffRetained (info : InfoBackup) (fullRetention differentialRetention : Nat) (label : Str) :
    Bool :=
  differentialRetention = 0 || newer (remaining info fullRetention) label < differentialRetention

structure Retained (info : InfoBackup) (fullRetention differentialRetention : Nat)
    (after : InfoBackup) : Prop where
  sublist : after.backup.Sublist info.backup
  full : ∀ data ∈ info.backup, labelFull data.backupLabel = true →
    (data ∈ after.backup ↔ fullRetained info fullRetention data.backupLabel = true)
  diff : ∀ data ∈ info.backup, labelFullDiff data.backupLabel = true →
    labelFull data.backupLabel = false →
      (data ∈ after.backup ↔
        fullRetained info fullRetention (data.backupPrior.getD []) = true ∧
        diffRetained info fullRetention differentialRetention data.backupLabel = true)
  incr : ∀ data ∈ info.backup, labelFullDiff data.backupLabel = false →
    (data ∈ after.backup ↔ ∀ ancestor ∈ info.backup,
      Relation.TransGen (ParentOf (·.backupLabel) (·.backupPrior) info.backup)
        ancestor.backupLabel data.backupLabel → ancestor ∈ after.backup)

variable {label x : Str} {data : InfoBackupData}

theorem labelFullDiff_of_labelFull (h : labelFull label = true) :
    labelFullDiff label = true :=
  backupRegExp_of_labelFull rfl h

theorem labelList_asc (chained : Chained info) (expression : Str → Bool) :
    (infoBackupDataLabelList info expression).Pairwise (fun a b => a < b) :=
  (List.pairwise_map.mpr chained.ordered).filter _

theorem mem_labelList {expression : Str → Bool} :
    label ∈ infoBackupDataLabelList info expression ↔
      (∃ data ∈ info.backup, data.backupLabel = label) ∧ expression label = true := by
  rw [infoBackupDataLabelList, List.mem_filter, List.mem_map]

theorem depends_self (chained : Chained info) (hd : data ∈ info.backup)
    (none : data.backupPrior = none) :
    Depends info x data.backupLabel ↔ x = data.backupLabel := by
  constructor
  · intro depends
    rcases Relation.ReflTransGen.cases_tail depends with same | ⟨b, -, a, ha, label, hp⟩
    · exact same.symm
    · have same := chained.eq_of_label ha hd label
      subst same
      have edge : a.backupPrior = some b := hp
      rw [none] at edge
      cases edge
  · rintro rfl
    exact Relation.ReflTransGen.refl

theorem depends_full (chained : Chained info) (typed : Typed info) (hd : data ∈ info.backup)
    (full : labelFull data.backupLabel = true) :
    Depends info x data.backupLabel ↔ x = data.backupLabel :=
  depends_self chained hd (typed.full data hd full)

theorem depends_diff (chained : Chained info) (typed : Typed info) (hd : data ∈ info.backup)
    {p : Str} (hp : data.backupPrior = some p) (full : labelFull p = true) :
    Depends info x data.backupLabel ↔ x = data.backupLabel ∨ x = p := by
  constructor
  · intro depends
    rcases Relation.ReflTransGen.cases_tail depends with same | ⟨b, before, a, ha, label, hb⟩
    · exact Or.inl same.symm
    · have same := chained.eq_of_label ha hd label
      subst same
      have edge : a.backupPrior = some b := hb
      rw [hp] at edge
      cases edge
      obtain ⟨⟨prior, listed, rfl⟩, -⟩ := chained.prior a hd p hp
      exact Or.inr ((depends_full chained typed listed full).mp before)
  · rintro (rfl | rfl)
    · exact Relation.ReflTransGen.refl
    · exact Relation.ReflTransGen.single ⟨data, hd, rfl, hp⟩

theorem mem_expireFullList (chained : Chained info) :
    (0 < fullRetention ∧ label ∈ expireFullList info fullRetention) ↔
      label ∈ infoBackupDataLabelList info labelFull ∧
        fullRetained info fullRetention label = false := by
  rw [expireFullList, mem_take_length_sub_iff (labelList_asc chained labelFull), fullRetained]
  simp only [Bool.or_eq_false_iff, decide_eq_false_iff_not, not_lt]
  constructor
  · rintro ⟨set, listed, many⟩
    exact ⟨listed, by omega, many⟩
  · rintro ⟨listed, set, many⟩
    exact ⟨by omega, listed, many⟩

theorem mem_expireDiffList (chained : Chained cur) :
    label ∈ expireDiffList cur differentialRetention ↔
      label ∈ infoBackupDataLabelList cur labelFullDiff ∧ labelFull label = false ∧
        differentialRetention ≤ newer (infoBackupDataLabelList cur labelFullDiff) label := by
  rw [expireDiffList, List.mem_filter, mem_take_length_sub_iff (labelList_asc chained labelFullDiff),
    Bool.not_eq_true', and_assoc, and_comm (a := labelFull label = false)]

theorem spared_iff_fullRetained (fullRetention : Nat) (chained : Chained info) (typed : Typed info)
    (hd : data ∈ info.backup) (counted : labelFullDiff data.backupLabel = true) :
    (∀ x, 0 < fullRetention ∧ x ∈ expireFullList info fullRetention →
        ¬ Depends info x data.backupLabel) ↔
      fullRetained info fullRetention
        (if labelFull data.backupLabel then data.backupLabel else data.backupPrior.getD []) = true := by
  simp only [mem_expireFullList chained]
  by_cases full : labelFull data.backupLabel = true
  · have listed := mem_labelList.mpr ⟨⟨data, hd, rfl⟩, full⟩
    rw [if_pos full]
    simp only [depends_full chained typed hd full]
    constructor
    · intro unnamed
      by_contra gone
      exact unnamed _ ⟨listed, Bool.eq_false_iff.mpr gone⟩ rfl
    · rintro retained x ⟨-, gone⟩ rfl
      rw [retained] at gone
      cases gone
  · obtain ⟨p, hp, fullPrior⟩ := typed.diff data hd counted (Bool.eq_false_iff.mpr full)
    have listed := mem_labelList.mpr ⟨(chained.prior data hd p hp).1, fullPrior⟩
    rw [if_neg full, hp, Option.getD_some]
    simp only [depends_diff chained typed hd hp fullPrior]
    constructor
    · intro unnamed
      by_contra gone
      exact unnamed p ⟨listed, Bool.eq_false_iff.mpr gone⟩ (Or.inr rfl)
    · rintro retained x ⟨named, gone⟩ (rfl | rfl)
      · exact full (mem_labelList.mp named).2
      · rw [retained] at gone
        cases gone

/-- After full retention the full and differential backups are those that `remaining` lists. -/
theorem newer_remaining (chained : Chained info) (typed : Typed info)
    (h : Expired info (fun x => 0 < fullRetention ∧ x ∈ expireFullList info fullRetention) cur)
    (label : Str) : newer (infoBackupDataLabelList cur labelFullDiff) label =
      newer (remaining info fullRetention) label := by
  apply newer_perm
  have unique : (remaining info fullRetention).Nodup :=
    List.Nodup.sublist (List.filter_sublist.map _) chained.nodup
  refine (List.perm_ext_iff_of_nodup ((h.chained chained).nodup.filter _) unique).mpr ?_
  intro l
  change l ∈ infoBackupDataLabelList cur labelFullDiff ↔ _
  rw [mem_labelList, remaining, List.mem_map]
  constructor
  · rintro ⟨⟨data, hd, rfl⟩, counted⟩
    have listed := h.sublist.subset hd
    have retained := (spared_iff_fullRetained fullRetention chained typed listed counted).mp
      ((h.kept data listed).mp hd)
    exact ⟨data, List.mem_filter.mpr ⟨listed, by rw [counted, retained]; rfl⟩, rfl⟩
  · rintro ⟨data, hd, rfl⟩
    obtain ⟨listed, both⟩ := List.mem_filter.mp hd
    obtain ⟨counted, retained⟩ := Bool.and_eq_true_iff.mp both
    have spared := (spared_iff_fullRetained fullRetention chained typed listed counted).mpr retained
    exact ⟨⟨data, (h.kept data listed).mpr spared, rfl⟩, counted⟩

theorem expireFullBackup_run (chained : Chained info) (repoIdx : Nat) (w : World) :
    ∃ cur n w', exec (expireFullBackup info repoIdx) w = (.ok (cur, n), w') ∧
      w'.config = w.config ∧
      Expired info (fun x => 0 < (w.config.repo repoIdx).retentionFull.getD 0 ∧
        x ∈ expireFullList info ((w.config.repo repoIdx).retentionFull.getD 0)) cur := by
  rw [expireFullBackup, exec_bind_of_ok (exec_repoOptionIdx repoIdx w)]
  dsimp only
  split
  · rename_i set
    obtain ⟨cur, n, w', run, config, expired⟩ := expireLogged_foldlM chained .full repoIdx
      (expireFullList info ((w.config.repo repoIdx).retentionFull.getD 0)) (Expired.none info) 0 w
    exact ⟨cur, n, w', run, config, expired.congr (by simp [set])⟩
  · rename_i unset
    exact ⟨info, 0, w, rfl, rfl, (Expired.none info).congr (by simp [unset])⟩

theorem expireDiffBackup_run (chained : Chained info) {named : Str → Prop}
    (h : Expired info named cur) (repoIdx : Nat) (w : World) :
    ∃ after n w', exec (expireDiffBackup cur repoIdx) w = (.ok (after, n), w') ∧
      Expired info (fun x => named x ∨ 0 < (w.config.repo repoIdx).retentionDiff.getD 0 ∧
        x ∈ expireDiffList cur ((w.config.repo repoIdx).retentionDiff.getD 0)) after := by
  rw [expireDiffBackup, exec_bind_of_ok (exec_repoOptionIdx repoIdx w)]
  dsimp only
  split
  · rename_i set
    obtain ⟨after, n, w', run, -, expired⟩ := expireLogged_foldlM chained .diff repoIdx
      (expireDiffList cur ((w.config.repo repoIdx).retentionDiff.getD 0)) h 0 w
    exact ⟨after, n, w', run, expired.congr (by simp [set])⟩
  · rename_i unset
    exact ⟨cur, 0, w, rfl, h.congr (by simp [unset])⟩

/-- The labels of both rules describe what is left. -/
theorem retained_of_expired (chained : Chained info) (typed : Typed info)
    (full : Expired info (fun x => 0 < fullRetention ∧ x ∈ expireFullList info fullRetention) cur)
    (both : Expired info (fun x => (0 < fullRetention ∧ x ∈ expireFullList info fullRetention) ∨
      0 < differentialRetention ∧ x ∈ expireDiffList cur differentialRetention) after) :
    Retained info fullRetention differentialRetention after := by
  have chainedCur := full.chained chained
  refine ⟨both.sublist, ?_, ?_, ?_⟩
  · intro data hd isFull
    rw [both.kept data hd]
    have first := spared_iff_fullRetained fullRetention chained typed hd
      (labelFullDiff_of_labelFull isFull)
    rw [if_pos isFull] at first
    rw [← first]
    constructor
    · exact fun unnamed x hx => unnamed x (Or.inl hx)
    · rintro unnamed x (hx | ⟨-, hx⟩) depends
      · exact unnamed x hx depends
      · -- Differential retention names no full backup.
        have same := (depends_full chained typed hd isFull).mp depends
        subst same
        obtain ⟨-, notFull, -⟩ := (mem_expireDiffList chainedCur).mp hx
        rw [isFull] at notFull
        cases notFull
  · intro data hd counted notFull
    rw [both.kept data hd]
    have first := spared_iff_fullRetained fullRetention chained typed hd counted
    rw [if_neg (by simp [notFull])] at first
    rw [← first, ← full.kept data hd]
    obtain ⟨p, hp, fullPrior⟩ := typed.diff data hd counted notFull
    have named : data ∈ cur.backup →
        ((0 < differentialRetention ∧ data.backupLabel ∈ expireDiffList cur differentialRetention) ↔
          diffRetained info fullRetention differentialRetention data.backupLabel = false) := by
      intro stays
      rw [mem_expireDiffList chainedCur, newer_remaining chained typed full, diffRetained]
      simp only [Bool.or_eq_false_iff, decide_eq_false_iff_not, not_lt]
      constructor
      · rintro ⟨set, -, -, many⟩
        exact ⟨by omega, many⟩
      · rintro ⟨set, many⟩
        exact ⟨by omega, mem_labelList.mpr ⟨⟨data, stays, rfl⟩, counted⟩, notFull, many⟩
    constructor
    · intro unnamed
      have stays : data ∈ cur.backup := (full.kept data hd).mpr (fun x hx => unnamed x (Or.inl hx))
      refine ⟨stays, ?_⟩
      by_contra gone
      exact unnamed data.backupLabel
        (Or.inr ((named stays).mpr (Bool.eq_false_iff.mpr gone))) Relation.ReflTransGen.refl
    · rintro ⟨stays, retained⟩ x (hx | hx) depends
      · exact (full.kept data hd).mp stays x hx depends
      · rcases (depends_diff chained typed hd hp fullPrior).mp depends with rfl | rfl
        · rw [(named stays).mp hx] at retained
          cases retained
        · obtain ⟨-, notFull, -⟩ := (mem_expireDiffList chainedCur).mp hx.2
          rw [fullPrior] at notFull
          cases notFull
  · intro data hd other
    constructor
    · intro stays ancestor ha depends
      refine (both.kept ancestor ha).mpr (fun x hx before => ?_)
      exact (both.kept data hd).mp stays x hx (before.trans depends.to_reflTransGen)
    · intro ancestors
      refine (both.kept data hd).mpr (fun x hx depends => ?_)
      -- A named label is that of a listed full or differential backup, so of a proper ancestor.
      have isNamed : (∃ d ∈ info.backup, d.backupLabel = x) ∧ labelFullDiff x = true := by
        rcases hx with ⟨-, hx⟩ | ⟨-, hx⟩
        · obtain ⟨listed, isFull⟩ := mem_labelList.mp (List.mem_of_mem_take hx)
          exact ⟨listed, labelFullDiff_of_labelFull isFull⟩
        · obtain ⟨listed, -⟩ := (mem_expireDiffList chainedCur).mp hx
          obtain ⟨⟨d, hc, label⟩, counted⟩ := mem_labelList.mp listed
          exact ⟨⟨d, full.sublist.subset hc, label⟩, counted⟩
      obtain ⟨⟨d, listed, rfl⟩, counted⟩ := isNamed
      rcases Relation.reflTransGen_iff_eq_or_transGen.mp depends with same | proper
      · rw [same, counted] at other
        cases other
      · exact (both.kept d listed).mp (ancestors d listed proper) d.backupLabel hx
          Relation.ReflTransGen.refl

/-- Full retention and then differential retention leave exactly what the rules say. -/
theorem expireFull_expireDiff_leaves (chained : Chained info) (typed : Typed info) (repoIdx : Nat)
    (w : World) :
    ∃ after n w', exec (do
        let state ← expireFullBackup info repoIdx
        expireDiffBackup state.1 repoIdx) w = (.ok (after, n), w') ∧
      Retained info ((w.config.repo repoIdx).retentionFull.getD 0)
        ((w.config.repo repoIdx).retentionDiff.getD 0) after := by
  obtain ⟨cur, n, w', first, config, full⟩ := expireFullBackup_run chained repoIdx w
  obtain ⟨after, n', w'', second, both⟩ := expireDiffBackup_run chained full repoIdx w'
  rw [config] at both
  refine ⟨after, n', w'', ?_, retained_of_expired chained typed full both⟩
  rw [exec_bind_of_ok first, second]

def retentionWorld (full diff : Option Nat) : World where
  now := 0
  timeText := fun _ => []
  config := { repo := fun _ => { retentionFull := full, retentionDiff := diff } }
  storage := fun _ => ⟨[]⟩

/-- The list that both rules leave in the run above. -/
def leftBy (info : InfoBackup) (w : World) : InfoBackup :=
  match (exec (do
      let state ← expireFullBackup info 0
      expireDiffBackup state.1 0) w).1 with
  | .ok state => state.1
  | .error _ => info

def entry (label prior : String) : InfoBackupData where
  backupLabel := label.toList
  backupPrior := if prior = "" then none else some prior.toList

def laterPrior : InfoBackup := ⟨⟨[], 0⟩,
  [entry "20200101-000000F" "",
    entry "20200101-000000F_20200102-000000I" "20200101-000000F_20200103-000000I",
    entry "20200101-000000F_20200103-000000I" "20200101-000000F",
    entry "20200105-000000F" ""]⟩

def diffPrior : InfoBackup := ⟨⟨[], 0⟩,
  [entry "20200101-000000F" "",
    entry "20200101-000000F_20200102-000000D" "20200101-000000F",
    entry "20200101-000000F_20200103-000000D" "20200101-000000F_20200102-000000D"]⟩

def fullPrior : InfoBackup := ⟨⟨[], 0⟩,
  [entry "20200101-000000F" "", entry "20200102-000000F" "20200101-000000F"]⟩

/-- Priors that are listed only are not enough: an incremental backup stays without its prior, a
differential and a full backup go that retention should keep. -/
theorem retained_needs_order_and_types :
    (∀ info ∈ [laterPrior, diffPrior, fullPrior], Ordered info.backup ∧
      ∀ data ∈ info.backup, ∀ p ∈ data.backupPrior, ∃ d ∈ info.backup, d.backupLabel = p) ∧
    ¬ Retained laterPrior 1 0 (leftBy laterPrior (retentionWorld (some 1) none)) ∧
    ¬ Retained diffPrior 0 1 (leftBy diffPrior (retentionWorld none (some 1))) ∧
    ¬ Retained fullPrior 1 0 (leftBy fullPrior (retentionWorld (some 1) none)) := by
  refine ⟨?_, ?_, ?_, ?_⟩
  · unfold Ordered
    decide
  · intro retained
    have gone := (retained.incr _ (List.mem_cons_of_mem _ List.mem_cons_self) (by decide)).mp
      (by decide) (entry "20200101-000000F_20200103-000000I" "20200101-000000F") (by decide)
      (Relation.TransGen.single ⟨_, List.mem_cons_of_mem _ List.mem_cons_self, rfl, by decide⟩)
    revert gone
    decide
  · intro retained
    have stays := (retained.diff
      (entry "20200101-000000F_20200103-000000D" "20200101-000000F_20200102-000000D") (by decide)
      (by decide) (by decide)).mpr (by decide)
    revert stays
    decide
  · intro retained
    have stays := (retained.full (entry "20200102-000000F" "20200101-000000F") (by decide)
      (by decide)).mpr (by decide)
    revert stays
    decide

def fullDiffInfo : InfoBackup := ⟨⟨[], 0⟩,
  [entry "20200101-000000F" "", entry "20200101-000000F_20200102-000000D" "20200101-000000F",
    entry "20200103-000000F" "", entry "20200103-000000F_20200104-000000D" "20200103-000000F"]⟩

theorem expireFull_expireDiff_leaves_newest :
    ∃ after n w', exec (do
        let state ← expireFullBackup fullDiffInfo 0
        expireDiffBackup state.1 0) (retentionWorld (some 1) (some 1)) = (.ok (after, n), w') ∧
      Retained fullDiffInfo 1 1 after := by
  refine expireFull_expireDiff_leaves ⟨?_, ?_⟩ ⟨?_, ?_⟩ 0 (retentionWorld (some 1) (some 1))
  · unfold Ordered
    decide
  · decide
  · decide
  · decide

end Count

section TimeBased
variable {info cur after : InfoBackup} {minTimestamp : Int} {keep : Str}

def FullFirst (info : InfoBackup) : Prop :=
  ∀ data ∈ info.backup, labelFull data.backupLabel = true ↔ data.backupPrior = none

variable {data : InfoBackupData} {named : Str → Prop}

theorem depends_of_full (chained : Chained info) (first : FullFirst info) (hd : data ∈ info.backup)
    (full : labelFull data.backupLabel = true) {x : Str} :
    Depends info x data.backupLabel ↔ x = data.backupLabel :=
  depends_self chained hd ((first data hd).mp full)

theorem exists_full (chained : Chained info) (first : FullFirst info) :
    ∀ data ∈ info.backup, ∃ full ∈ info.backup, labelFull full.backupLabel = true ∧
      Depends info full.backupLabel data.backupLabel := by
  have walk : ∀ before later, before ++ later = info.backup → ∀ data ∈ before,
      ∃ full ∈ info.backup, labelFull full.backupLabel = true ∧
        Depends info full.backupLabel data.backupLabel := by
    intro before
    induction before using List.reverseRecOn with
    | nil => simp
    | append_singleton before last ih =>
      intro later whole data hd
      rcases List.mem_append.mp hd with old | new
      · exact ih (last :: later) (by simpa using whole) data old
      · have same := List.mem_singleton.mp new
        subst same
        have listed : data ∈ info.backup := whole ▸ List.mem_append_left later hd
        cases hp : data.backupPrior with
        | none =>
          exact ⟨data, listed, (first data listed).mpr hp, Relation.ReflTransGen.refl⟩
        | some p =>
          obtain ⟨⟨prior, hprior, rfl⟩, older⟩ := chained.prior data listed p hp
          -- What stands after the entry is newer, so the prior stands before it.
          have inBefore : prior ∈ before := by
            have order := chained.ordered
            rw [← whole] at hprior order
            rcases List.mem_append.mp hprior with early | late
            · rcases List.mem_append.mp early with early | self
              · exact early
              · rw [List.mem_singleton.mp self] at older
                exact absurd older (lt_irrefl _)
            · have newer := (List.pairwise_append.mp order).2.2 data hd prior late
              exact absurd (newer.trans older) (lt_irrefl _)
          obtain ⟨full, hf, isFull, depends⟩ :=
            ih (data :: later) (by simpa using whole) prior inBefore
          exact ⟨full, hf, isFull, depends.tail ⟨data, listed, rfl, hp⟩⟩
  exact walk info.backup [] (List.append_nil _)

theorem full_unique (chained : Chained info) (first : FullFirst info) {f f' : InfoBackupData}
    (hf : f ∈ info.backup) (hf' : f' ∈ info.backup) (full : labelFull f.backupLabel = true)
    (full' : labelFull f'.backupLabel = true) {y : Str} (depends : Depends info f.backupLabel y)
    (depends' : Depends info f'.backupLabel y) : f'.backupLabel = f.backupLabel := by
  induction depends with
  | refl => exact (depends_of_full chained first hf full).mp depends'
  | @tail b c _ edge ih =>
    obtain ⟨a, ha, rfl, hp⟩ := edge
    have hp : a.backupPrior = some b := hp
    rcases Relation.ReflTransGen.cases_tail depends' with same | ⟨b', before, a', ha', label, hp'⟩
    · have self := chained.eq_of_label ha hf' same
      subst self
      rw [(first a ha).mp full'] at hp
      cases hp
    · have self := chained.eq_of_label ha' ha label
      subst self
      have edge' : a'.backupPrior = some b' := hp'
      rw [hp] at edge'
      cases edge'
      exact ih before

structure TimeRetained (info : InfoBackup) (minTimestamp : Int) (after : InfoBackup) : Prop where
  sublist : after.backup.Sublist info.backup
  kept : ∀ data ∈ info.backup, data ∈ after.backup ↔ ∃ full ∈ info.backup,
    labelFull full.backupLabel = true ∧ Depends info full.backupLabel data.backupLabel ∧
      ∀ old ∈ info.backup, labelFull old.backupLabel = true →
        old.backupTimestampStop < minTimestamp → old.backupLabel ≤ full.backupLabel

def stoppedBefore (info : InfoBackup) (minTimestamp : Int) (label : Str) : Bool :=
  ((infoBackupDataByLabel info label).map
    (fun data => decide (data.backupTimestampStop < minTimestamp))).getD false

theorem stoppedBefore_iff (chained : Chained info) (hd : data ∈ info.backup) :
    stoppedBefore info minTimestamp data.backupLabel = true ↔
      data.backupTimestampStop < minTimestamp := by
  rw [stoppedBefore, infoBackupDataByLabel]
  cases hf : info.backup.find? (fun d => decide (d.backupLabel = data.backupLabel)) with
  | none => simpa using List.find?_eq_none.mp hf data hd
  | some d =>
    have label : d.backupLabel = data.backupLabel := by simpa using List.find?_some hf
    rw [chained.eq_of_label (List.mem_of_find?_eq_some hf) hd label]
    simp

theorem lastBackupLabelToKeep_cons (info : InfoBackup) (minTimestamp : Int) (label next : Str)
    (rest : List Str) : lastBackupLabelToKeep info minTimestamp label (next :: rest) =
      if stoppedBefore info minTimestamp label then label
      else lastBackupLabelToKeep info minTimestamp next rest := rfl

theorem lastBackupLabelToKeep_spec (info : InfoBackup) (minTimestamp : Int) {label : Str}
    {older : List Str} (desc : (label :: older).Pairwise (fun a b => b < a)) :
    lastBackupLabelToKeep info minTimestamp label older ∈ label :: older ∧
      (∀ l ∈ label :: older, stoppedBefore info minTimestamp l = true →
        l ≤ lastBackupLabelToKeep info minTimestamp label older) ∧
      (stoppedBefore info minTimestamp
          (lastBackupLabelToKeep info minTimestamp label older) = true ∨
        ∀ l ∈ label :: older, lastBackupLabelToKeep info minTimestamp label older ≤ l) := by
  induction older generalizing label with
  | nil => simp [lastBackupLabelToKeep]
  | cons next rest ih =>
    obtain ⟨above, tail⟩ := List.pairwise_cons.mp desc
    rw [lastBackupLabelToKeep_cons]
    by_cases stopped : stoppedBefore info minTimestamp label = true
    · rw [if_pos stopped]
      refine ⟨List.mem_cons_self, fun l hl _ => ?_, Or.inl stopped⟩
      rcases List.mem_cons.mp hl with rfl | hl
      · exact le_rfl
      · exact (above l hl).le
    · rw [if_neg stopped]
      obtain ⟨mem, newest, oldest⟩ := ih tail
      refine ⟨List.mem_cons_of_mem _ mem, fun l hl hs => ?_, ?_⟩
      · rcases List.mem_cons.mp hl with rfl | hl
        · exact absurd hs stopped
        · exact newest l hl hs
      · refine oldest.imp_right (fun least l hl => ?_)
        rcases List.mem_cons.mp hl with rfl | hl
        · exact (least next List.mem_cons_self).trans (above next List.mem_cons_self).le
        · exact least l hl

theorem fullList_expired (chained : Chained info) (first : FullFirst info)
    (before : Expired info named cur) (hd : data ∈ cur.backup)
    (full : labelFull data.backupLabel = true)
    (h : Expired info (fun x => named x ∨ x = data.backupLabel) after) :
    (infoBackupDataLabelList cur labelFull).length =
      (infoBackupDataLabelList after labelFull).length + 1 := by
  have gone : data.backupLabel ∉ infoBackupDataLabelList after labelFull := by
    intro mem
    obtain ⟨⟨d, stays, label⟩, -⟩ := mem_labelList.mp mem
    have unnamed := (h.kept d (h.sublist.subset stays)).mp stays data.backupLabel (Or.inr rfl)
    exact unnamed (label ▸ Relation.ReflTransGen.refl)
  have perm : (infoBackupDataLabelList cur labelFull).Perm
      (data.backupLabel :: infoBackupDataLabelList after labelFull) := by
    refine (List.perm_ext_iff_of_nodup ((before.chained chained).nodup.filter _)
      (List.nodup_cons.mpr ⟨gone, (h.chained chained).nodup.filter _⟩)).mpr (fun l => ?_)
    change l ∈ infoBackupDataLabelList cur labelFull ↔ _
    rw [List.mem_cons, mem_labelList, mem_labelList]
    constructor
    · rintro ⟨⟨d, hc, rfl⟩, isFull⟩
      by_cases same : d.backupLabel = data.backupLabel
      · exact Or.inl same
      · have listed := before.sublist.subset hc
        refine Or.inr ⟨⟨d, (h.kept d listed).mpr (fun x hx depends => ?_), rfl⟩, isFull⟩
        have self := (depends_of_full chained first listed isFull).mp depends
        subst self
        rcases hx with hx | hx
        · exact (before.kept d listed).mp hc _ hx Relation.ReflTransGen.refl
        · exact same hx
    · rintro (rfl | ⟨⟨d, stays, rfl⟩, isFull⟩)
      · exact ⟨⟨data, hd, rfl⟩, full⟩
      · have listed := h.sublist.subset stays
        refine ⟨⟨d, (before.kept d listed).mpr (fun x hx => ?_), rfl⟩, isFull⟩
        exact (h.kept d listed).mp stays x (Or.inl hx)
  rw [perm.length_eq, List.length_cons]

theorem expireUntilFirst_run (repoIdx : Nat) (chained : Chained info) (first : FullFirst info)
    {kept : InfoBackupData} (hk : kept ∈ info.backup) (full : labelFull kept.backupLabel = true)
    (h : Expired info named cur) (older : ∀ x, named x → labelFull x = true ∧ x < kept.backupLabel)
    {fuel : Nat} (enough : cur.backup.length ≤ fuel) (n num : Nat) (w : World) :
    ∃ after n' num' named' w',
      exec (expireUntilFirst kept.backupLabel repoIdx fuel (cur, n) num) w =
        (.ok ((after, n'), num'), w') ∧
      w'.config = w.config ∧ Expired info named' after ∧
      (∀ x, named' x → labelFull x = true ∧ x < kept.backupLabel) ∧
      (∀ data ∈ after.backup, kept.backupLabel ≤ data.backupLabel) ∧
      (infoBackupDataLabelList cur labelFull).length + num =
        (infoBackupDataLabelList after labelFull).length + num' := by
  induction fuel generalizing cur named n num w with
  | zero =>
    have stays : kept ∈ cur.backup := by
      refine (h.kept kept hk).mpr (fun x hx depends => ?_)
      rw [depends_of_full chained first hk full] at depends
      exact absurd (older x hx).2 (depends ▸ lt_irrefl _)
    rw [List.eq_nil_of_length_eq_zero (Nat.le_zero.mp enough)] at stays
    cases stays
  | succ fuel ih =>
    have stays : kept ∈ cur.backup := by
      refine (h.kept kept hk).mpr (fun x hx depends => ?_)
      rw [depends_of_full chained first hk full] at depends
      exact absurd (older x hx).2 (depends ▸ lt_irrefl _)
    obtain ⟨front, rest, hcur⟩ := List.exists_cons_of_ne_nil (List.ne_nil_of_mem stays)
    have order := (h.chained chained).ordered
    rw [hcur] at order
    obtain ⟨above, -⟩ := List.pairwise_cons.mp order
    have least : ∀ data ∈ cur.backup, front.backupLabel ≤ data.backupLabel := by
      intro data hd
      rw [hcur] at hd
      rcases List.mem_cons.mp hd with rfl | hd
      · exact le_rfl
      · exact (above data hd).le
    have hfront : front ∈ cur.backup := hcur ▸ List.mem_cons_self
    have get : exec (orThrow (infoBackupData cur 0)) w = (.ok front, w) := by
      rw [infoBackupData, hcur]
      rfl
    rw [expireUntilFirst, exec_bind_of_ok get]
    by_cases done : front.backupLabel = kept.backupLabel
    · rw [if_pos done]
      exact ⟨cur, n, num, named, w, rfl, rfl, h, older, done ▸ least, rfl⟩
    · rw [if_neg done]
      -- The front has no prior, which would stand before it.
      have isFull : labelFull front.backupLabel = true := by
        refine (first front (h.sublist.subset hfront)).mpr ?_
        by_contra some
        obtain ⟨p, hp⟩ := Option.ne_none_iff_exists'.mp some
        obtain ⟨⟨prior, listed, rfl⟩, before⟩ := (h.chained chained).prior front hfront p hp
        exact absurd before (not_lt_of_ge (least prior listed))
      have before : front.backupLabel < kept.backupLabel :=
        lt_of_le_of_ne (least kept stays) done
      obtain ⟨n₁, w₁, run₁, config₁⟩ :=
        exec_expireLogged cur .timeBased repoIdx n front.backupLabel w
      have step := h.step chained front.backupLabel
      have older' : ∀ x, named x ∨ x = front.backupLabel →
          labelFull x = true ∧ x < kept.backupLabel := by
        rintro x (hx | rfl)
        · exact older x hx
        · exact ⟨isFull, before⟩
      have shorter : ((strLstSort (infoBackupDataDependentList cur front.backupLabel) .desc).foldl
          infoBackupDataDelete cur).backup.length ≤ fuel := by
        have sub : ((strLstSort (infoBackupDataDependentList cur front.backupLabel) .desc).foldl
            infoBackupDataDelete cur).backup.Sublist cur.backup := by
          rw [foldl_delete_backup (h.chained chained).ordered]
          exact List.filter_sublist
        have gone : front ∉ ((strLstSort (infoBackupDataDependentList cur front.backupLabel)
            .desc).foldl infoBackupDataDelete cur).backup := by
          intro mem
          exact (step.kept front (h.sublist.subset hfront)).mp mem front.backupLabel (Or.inr rfl)
            Relation.ReflTransGen.refl
        have le := sub.length_le
        have ne : _ ≠ cur.backup.length := fun same => gone (sub.eq_of_length same ▸ hfront)
        omega
      obtain ⟨after, n', num', named', w', run, config, expired, named'Older, front', count⟩ :=
        ih step older' shorter n₁ (num + 1) w₁
      refine ⟨after, n', num', named', w', ?_, config.trans config₁, expired, named'Older, front', ?_⟩
      · rw [exec_bind_of_ok run₁, run]
      · rw [fullList_expired chained first h hfront isFull step]
        omega

theorem depends_listed (chained : Chained info) (hd : data ∈ info.backup) {x : Str}
    (depends : Depends info x data.backupLabel) :
    ∃ d ∈ info.backup, d.backupLabel = x := by
  rcases Relation.ReflTransGen.cases_head depends with same | ⟨b, ⟨a, ha, -, hp⟩, -⟩
  · exact ⟨data, hd, same.symm⟩
  · exact (chained.prior a ha x hp).1

theorem timeRetained_of_expired (chained : Chained info) (first : FullFirst info)
    (h : Expired info named after) (older : ∀ x, named x → labelFull x = true ∧ x < keep)
    (front : ∀ data ∈ after.backup, keep ≤ data.backupLabel)
    (newest : ∀ f ∈ info.backup, labelFull f.backupLabel = true → (keep ≤ f.backupLabel ↔
      ∀ old ∈ info.backup, labelFull old.backupLabel = true →
        old.backupTimestampStop < minTimestamp → old.backupLabel ≤ f.backupLabel)) :
    TimeRetained info minTimestamp after := by
  refine ⟨h.sublist, fun data hd => ?_⟩
  constructor
  · intro stays
    obtain ⟨f, hf, full, depends⟩ := exists_full chained first data hd
    refine ⟨f, hf, full, depends, (newest f hf full).mp ?_⟩
    -- An older full backup would not be left, so it was named with its dependents.
    have left : f ∈ after.backup := by
      refine (h.kept f hf).mpr (fun x hx before => ?_)
      exact (h.kept data hd).mp stays x hx (before.trans depends)
    exact front f left
  · rintro ⟨f, hf, full, depends, retained⟩
    refine (h.kept data hd).mpr (fun x hx before => ?_)
    obtain ⟨g, hg, rfl⟩ := depends_listed chained hd before
    obtain ⟨full', lt⟩ := older _ hx
    have same := full_unique chained first hf hg full full' depends before
    rw [same] at lt
    exact absurd lt (not_lt_of_ge ((newest f hf full).mpr retained))

/-- The end of `expireTimeBasedBackup`: archive retention is set by default. -/
theorem exec_retentionArchiveDefault {α : Type} (option : RepoOption) (repoIdx value num : Nat)
    (a : α) (v : World) :
    ∃ v', exec (if (decide (option.retentionArchiveType = .full) &&
          option.retentionArchive.isNone && decide (num > 0)) = true then do
        retentionArchiveSet repoIdx value
        pure a
      else pure a) v = (.ok a, v') ∧
      v'.config = if option.retentionArchiveType = .full ∧ option.retentionArchive = none ∧ 0 < num
        then Config.retentionArchiveSet v.config repoIdx value else v.config := by
  have set : exec (retentionArchiveSet repoIdx value) v =
      (.ok ⟨⟩, { v with config := Config.retentionArchiveSet v.config repoIdx value }) := rfl
  have cond : (decide (option.retentionArchiveType = .full) &&
      option.retentionArchive.isNone && decide (num > 0)) = true ↔
      option.retentionArchiveType = .full ∧ option.retentionArchive = none ∧ 0 < num := by
    simp [and_assoc]
  by_cases sets : option.retentionArchiveType = .full ∧ option.retentionArchive = none ∧ 0 < num
  · rw [if_pos (cond.mpr sets), exec_bind_of_ok set, if_pos sets]
    exact ⟨_, rfl, rfl⟩
  · rw [if_neg (fun h => sets (cond.mp h)), if_neg sets]
    exact ⟨v, rfl, rfl⟩

/-- Time-based retention ends, leaves the chains of the full backups from the newest that stopped
before the time on, one of which is such a backup when there is any, and sets archive retention to
the number of full backups left. -/
theorem expireTimeBasedBackup_leaves (chained : Chained info) (first : FullFirst info)
    (minTimestamp : Int) (repoIdx : Nat) (w : World) :
    ∃ after n w', exec (expireTimeBasedBackup info minTimestamp repoIdx) w = (.ok (after, n), w') ∧
      TimeRetained info minTimestamp after ∧
      ((∃ old ∈ info.backup, labelFull old.backupLabel = true ∧
          old.backupTimestampStop < minTimestamp) →
        ∃ old ∈ after.backup, labelFull old.backupLabel = true ∧
          old.backupTimestampStop < minTimestamp) ∧
      w'.config =
        if (w.config.repo repoIdx).retentionArchiveType = .full ∧
            (w.config.repo repoIdx).retentionArchive = none ∧
            (infoBackupDataLabelList after labelFull).length <
              (infoBackupDataLabelList info labelFull).length then
          Config.retentionArchiveSet w.config repoIdx
            (infoBackupDataLabelList after labelFull).length
        else w.config := by
  have asc := labelList_asc chained labelFull
  have sorted : strLstSort (infoBackupDataLabelList info labelFull) .asc =
      infoBackupDataLabelList info labelFull :=
    strLstSort_asc_eq_self (asc.imp (fun h => h.le))
  rw [expireTimeBasedBackup, sorted]
  dsimp only
  cases hr : (infoBackupDataLabelList info labelFull).reverse with
  | nil =>
    have none : ∀ data, data ∉ info.backup := by
      intro data hd
      obtain ⟨f, hf, full, -⟩ := exists_full chained first data hd
      have mem := List.mem_reverse.mpr (mem_labelList.mpr ⟨⟨f, hf, rfl⟩, full⟩)
      rw [hr] at mem
      cases mem
    refine ⟨info, 0, w, rfl, ⟨List.Sublist.refl _, fun data hd => absurd hd (none data)⟩, ?_, ?_⟩
    · rintro ⟨old, listed, -⟩
      exact absurd listed (none old)
    · rw [if_neg]
      rintro ⟨-, -, less⟩
      exact lt_irrefl _ less
  | cons label older =>
    have desc : (label :: older).Pairwise (fun a b => b < a) := hr ▸ List.pairwise_reverse.mpr asc
    obtain ⟨mem, upper, case⟩ := lastBackupLabelToKeep_spec info minTimestamp desc
    have isFull (l : Str) : l ∈ label :: older ↔
        (∃ d ∈ info.backup, d.backupLabel = l) ∧ labelFull l = true := by
      rw [← hr, List.mem_reverse, mem_labelList]
    obtain ⟨⟨kept, hk, hlabel⟩, full⟩ := (isFull _).mp mem
    dsimp only
    rw [← hlabel] at full upper case ⊢
    obtain ⟨after, n, num, named, v, run, config, expired, named'Older, front, count⟩ :=
      expireUntilFirst_run repoIdx chained first hk full (Expired.none info)
        (fun x hx => hx.elim) (Nat.le_refl _) 0 0 w
    have newest : ∀ f ∈ info.backup, labelFull f.backupLabel = true →
        (kept.backupLabel ≤ f.backupLabel ↔
          ∀ old ∈ info.backup, labelFull old.backupLabel = true →
            old.backupTimestampStop < minTimestamp → old.backupLabel ≤ f.backupLabel) := by
      intro f hf isFullF
      constructor
      · intro le old hold fullOld stopped
        exact (upper _ ((isFull _).mpr ⟨⟨old, hold, rfl⟩, fullOld⟩)
          ((stoppedBefore_iff chained hold).mpr stopped)).trans le
      · intro all
        rcases case with stopped | least
        · exact all kept hk full ((stoppedBefore_iff chained hk).mp stopped)
        · exact least _ ((isFull _).mpr ⟨⟨f, hf, rfl⟩, isFullF⟩)
    have retained := timeRetained_of_expired chained first expired named'Older front newest
    have oldLeft : (∃ old ∈ info.backup, labelFull old.backupLabel = true ∧
          old.backupTimestampStop < minTimestamp) →
        ∃ old ∈ after.backup, labelFull old.backupLabel = true ∧
          old.backupTimestampStop < minTimestamp := by
      rintro ⟨old, hold, fullOld, stopped⟩
      have stays := (retained.kept kept hk).mpr
        ⟨kept, hk, full, Relation.ReflTransGen.refl, (newest kept hk full).mp le_rfl⟩
      refine ⟨kept, stays, full, (stoppedBefore_iff chained hk).mp ?_⟩
      rcases case with stoppedKept | least
      · exact stoppedKept
      · have inList := (isFull _).mpr ⟨⟨old, hold, rfl⟩, fullOld⟩
        have stoppedOld := (stoppedBefore_iff chained hold).mpr stopped
        rw [le_antisymm (upper _ inList stoppedOld) (least _ inList)] at stoppedOld
        exact stoppedOld
    rw [exec_bind_of_ok (show exec (expireUntilFirst kept.backupLabel repoIdx
      (infoBackupDataTotal info) (info, 0) 0) w = _ from run)]
    dsimp only
    rw [exec_bind_of_ok (exec_repoOptionIdx repoIdx v), config]
    have left : (infoBackupDataLabelList info labelFull).length - num =
        (infoBackupDataLabelList after labelFull).length := by omega
    obtain ⟨v', last, config'⟩ := exec_retentionArchiveDefault (w.config.repo repoIdx) repoIdx
      ((infoBackupDataLabelList info labelFull).length - num) num (after, n) v
    refine ⟨after, n, v', last, retained, oldLeft, ?_⟩
    have some : 0 < num ↔ (infoBackupDataLabelList after labelFull).length <
        (infoBackupDataLabelList info labelFull).length := by omega
    rw [config', config, left]
    simp only [some]

def fullAt (label : String) (stop : Int) : InfoBackupData :=
  { entry label "" with backupTimestampStop := stop }

def timedInfo : InfoBackup := ⟨⟨[], 0⟩,
  [fullAt "20200101-000000F" 10, entry "20200101-000000F_20200102-000000I" "20200101-000000F",
    fullAt "20200103-000000F" 20, fullAt "20200105-000000F" 30]⟩

/-- The full backups that stopped at 20 and at 30 are left for the time 25. -/
theorem expireTimeBasedBackup_leaves_two :
    ∃ after n w', exec (expireTimeBasedBackup timedInfo 25 0) (retentionWorld none none) =
        (.ok (after, n), w') ∧
      TimeRetained timedInfo 25 after ∧
      (∃ old ∈ after.backup, labelFull old.backupLabel = true ∧ old.backupTimestampStop < 25) := by
  have ordered : Ordered timedInfo.backup := by
    unfold Ordered
    decide
  have first : FullFirst timedInfo := by
    unfold FullFirst
    decide
  obtain ⟨after, n, w', run, retained, old, -⟩ := expireTimeBasedBackup_leaves
    ⟨ordered, by decide⟩ first 25 0 (retentionWorld none none)
  exact ⟨after, n, w', run, retained, old (by decide)⟩

/-- Listed priors only are not enough: an incremental backup left in front is counted as a full one
and the archive retention set is too small, and a full backup with a prior goes with it, so that
the loop fails on the empty list. -/
theorem expireTimeBasedBackup_needs_order :
    (∀ info ∈ [laterPrior, fullPrior], Ordered info.backup ∧
      ∀ data ∈ info.backup, labelFull data.backupLabel = false →
        ∃ p ∈ data.backupPrior, ∃ d ∈ info.backup, d.backupLabel = p) ∧
    ((exec (expireTimeBasedBackup laterPrior 1 0) (retentionWorld none none)).1.toOption.map
      (fun state => (infoBackupDataLabelList state.1 labelFull).length)) = some 1 ∧
    ((exec (expireTimeBasedBackup laterPrior 1 0)
      (retentionWorld none none)).2.config.repo 0).retentionArchive = some 0 ∧
    (exec (expireTimeBasedBackup fullPrior 1 0) (retentionWorld none none)).1.toOption = none := by
  refine ⟨?_, ?_, ?_, ?_⟩
  · unfold Ordered
    decide
  · decide
  · decide
  · decide

end TimeBased

end ExpireRetention
