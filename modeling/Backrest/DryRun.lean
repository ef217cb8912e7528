import Backrest.ExpireCommand
import Backrest.WalScan

/-!
# A dry run and the run it predicts

Expire is run twice from one state, once as a dry run and once for real. The dry
run changes no storage. Its log says which paths of which repository are
removed, and the relation `Mirror` says that the storage of the real run is that
of the dry run without those paths. The two runs are compared function by
function, since the real run reads storage from which it has already removed.
-/

namespace DryRun

open Text LexOrder BackupCommon BackupManifest BackupInfo FileTree Effects Repository Expire
open ExpireArchive ExpireCommand RangeScan WalScan

section Covered

def covers (i : Nat) : LogEvent → List Str → Bool
  | .expire _ repoIdx labels, p => decide (repoIdx = i) && labels.any (fun label =>
      decide (p = manifestFileName label) || decide (p = manifestCopyFileName label))
  | .removeBackup repoIdx label, p => decide (repoIdx = i) && decide (backupPath label <+: p)
  | .removeArchivePath repoIdx archiveId, p =>
      decide (repoIdx = i) && decide (archivePath archiveId <+: p)
  | .removeArchive repoIdx archiveId start stop, p =>
      decide (repoIdx = i) && coversRange archiveId start stop p
  | .removeHistoryFile repoIdx archiveId file, p => decide (repoIdx = i) &&
      walTimelineHistory file && decide (p = archivePath archiveId ++ [file])
  | .removeHistoryPath repoIdx year, p => decide (repoIdx = i) && decide (historyPath year <+: p)
  | .removeHistoryManifest repoIdx file, p => decide (repoIdx = i) &&
      decide (p = historyPath (strSubN file 0 4) ++ [file])
  | _, _ => false

/-- Does the log say that the path is removed? -/
def covered (i : Nat) (log : List LogEvent) (p : List Str) : Bool := log.any (covers i · p)

theorem covered_append (i : Nat) (log events : List LogEvent) (p : List Str) :
    covered i (log ++ events) p = (covered i log p || covered i events p) :=
  List.any_append

/-- A message about one repository covers nothing of another. -/
def About (i : Nat) (event : LogEvent) : Prop := ∀ j, j ≠ i → ∀ p, covers j event p = false

/-- What a message says is removed was there. -/
def Names (storage : Nat → Storage) : LogEvent → Prop
  | .expire _ i labels => ∀ label ∈ labels, storageExists (storage i) (manifestFileName label) = true
  | .removeBackup i label => ((storage i).node (backupPath label)).isSome
  | .removeArchivePath i archiveId => ((storage i).node (archivePath archiveId)).isSome
  | .removeArchive i archiveId start stop => ∃ p, coversRange archiveId start stop p = true ∧
      ((storage i).node p).isSome
  | .removeHistoryFile i archiveId file => ((storage i).node (archivePath archiveId ++ [file])).isSome
  | .removeHistoryPath i year => ((storage i).node (historyPath year)).isSome
  | .removeHistoryManifest i file =>
      ((storage i).node (historyPath (strSubN file 0 4) ++ [file])).isSome
  | _ => True

/-- What the log of a dry run leaves of a repository. -/
def left (w : World) (i : Nat) : Storage :=
  ⟨(w.storage i).entries.filter (fun e => !covered i w.log e.1)⟩

theorem node_left (w : World) (i : Nat) (p : List Str) :
    (left w i).node p = if covered i w.log p then none else (w.storage i).node p := by
  rw [FileTree.Tree.node, left, lookup_filter (fun q => !covered i w.log q)]
  cases covered i w.log p <;> rfl

/-- The files that a real run writes anew: backup.info, its copy and the latest link. -/
def rewritten : List (List Str) :=
  [infoBackupFile, infoBackupFileCopy, [storageRepoBackup, backupLinkName]]

end Covered

section Mirror

/-- The log of the dry run says what the real run removed from the repository, and nothing else. -/
def Exact (S : Nat → Storage) (i : Nat) (w v : World) : Prop :=
  (∀ p, p ∉ rewritten → (v.storage i).node p =
    if covered i w.log p then none else (S i).node p) ∧ ∀ e ∈ w.log, Names S e

/-- The state of the dry run and that of the real run, where the runs started with the storage
`S`. -/
structure Alike (S : Nat → Storage) (w v : World) : Prop where
  kept : w.storage = S
  now : v.now = w.now
  timeText : v.timeText = w.timeText
  config : v.config = { w.config with dryRun := some false }
  found : v.adhocBackupFound = w.adhocBackupFound
  dryRun : w.config.dryRun = some true
  node : ∀ j p, p ∉ rewritten → (v.storage j).node p =
    if covered j w.log p then none else (S j).node p
  named : ∀ e ∈ w.log, Names S e

/-- The states while repository `i` is expired and the repositories `R` are still to come. All that
was said to be removed from `i` is in the scope. -/
structure Mirror (S : Nat → Storage) (R : List Nat) (i : Nat) (scope : List Str → Prop)
    (w v : World) : Prop extends Alike S w v where
  within : ∀ p, covered i w.log p = true → scope p
  fresh : ∀ j ∈ R, j ≠ i ∧ (∀ p, covered j w.log p = false) ∧ v.storage j = S j

variable {S : Nat → Storage} {R : List Nat} {i : Nat} {scope scope' : List Str → Prop} {w v v' : World}
  {events : List LogEvent}

section Both
variable (mirror : Mirror S R i scope w v)
include mirror

theorem Mirror.mono (wider : ∀ p, scope p → scope' p) : Mirror S R i scope' w v :=
  { mirror with within := fun p h => wider p (mirror.within p h) }

theorem Mirror.dry : w.config.real = false := by
  simp [Config.real, mirror.dryRun]

theorem Mirror.real : v.config.real = true := by
  simp [Config.real, mirror.config]

theorem Mirror.option : v.config.repo = w.config.repo := by
  rw [mirror.config]

/-- A path that the real run still has is not covered, and the dry run has it too. -/
theorem Mirror.uncovered {p : List Str} (rare : p ∉ rewritten)
    {j : Nat} (entry : (v.storage j).node p ≠ none) :
    covered j w.log p = false ∧ (S j).node p = (v.storage j).node p := by
  have same := mirror.node j p rare
  cases hc : covered j w.log p with
  | true =>
    rw [hc, if_pos rfl] at same
    exact absurd same entry
  | false =>
    rw [hc] at same
    exact ⟨rfl, same.symm⟩

/-- The real run has what the log of the dry run leaves. -/
theorem Mirror.node_left (j : Nat) {p : List Str}
    (rare : p ∉ rewritten) : (v.storage j).node p = (left w j).node p := by
  rw [mirror.node j p rare, DryRun.node_left, mirror.kept]

/-- A path outside the scope is the same in both runs. -/
theorem Mirror.same {p : List Str} (rare : p ∉ rewritten)
    (outside : ¬ scope p) : (v.storage i).node p = (S i).node p := by
  rw [mirror.node i p rare, if_neg (fun h => outside (mirror.within p h))]

/-- The dry run logs messages and the real run removes what they cover. -/
theorem Mirror.advance (gone : List Str → Bool) (only : Only i v v') (removes : ∀ p, p ∉ rewritten →
      (v'.storage i).node p = if gone p then none else (v.storage i).node p)
    (same : ∀ p, p ∉ rewritten → (v.storage i).node p ≠ none → gone p = covered i events p)
    (about : ∀ e ∈ events, About i e) (names : ∀ e ∈ events, Names S e)
    (wider : ∀ p, scope p → scope' p)
    (within : ∀ e ∈ events, ∀ p, covers i e p = true → scope' p) :
    Mirror S R i scope' { w with log := w.log ++ events } v' := by
  have silent (j : Nat) (here : j ≠ i) (p : List Str) : covered j events p = false := by
    rw [covered, List.any_eq_false]
    intro e he
    rw [about e he j here p]
    exact Bool.false_ne_true
  refine ⟨⟨mirror.kept, only.now.trans mirror.now, only.timeText.trans mirror.timeText,
    only.config.trans mirror.config, only.found.trans mirror.found, mirror.dryRun, ?_, ?_⟩, ?_, ?_⟩
  · intro j p rare
    rw [covered_append]
    by_cases here : j = i
    · subst here
      rw [removes p rare]
      by_cases entry : (v.storage j).node p = none
      · rw [entry]
        have before := mirror.node j p rare
        rw [entry] at before
        cases hc : covered j w.log p with
        | true => simp
        | false =>
          have absent : (S j).node p = none := by
            rw [hc] at before
            exact before.symm
          rw [absent]
          simp
      · obtain ⟨uncovered, stored⟩ := mirror.uncovered rare entry
        rw [same p rare entry, uncovered, stored, Bool.false_or]
    · rw [only.storage j here, mirror.node j p rare, silent j here p, Bool.or_false]
  · intro e he
    rcases List.mem_append.mp he with he | he
    · exact mirror.named e he
    · exact names e he
  · intro p h
    rw [covered_append, Bool.or_eq_true] at h
    rcases h with h | h
    · exact wider p (mirror.within p h)
    · obtain ⟨e, he, covers⟩ := List.any_eq_true.mp h
      exact within e he p covers
  · intro j hj
    obtain ⟨other, none, stored⟩ := mirror.fresh j hj
    refine ⟨other, fun p => ?_, (only.storage j other).trans stored⟩
    rw [covered_append, none p, Bool.false_or]
    exact silent j other p

end Both

/-- A message that covers nothing. -/
def Silent (S : Nat → Storage) (event : LogEvent) : Prop := (∀ j p, covers j event p = false) ∧ Names S event

/-- Messages that cover nothing, while the real run changes at most what is written anew. -/
theorem Mirror.quiet (mirror : Mirror S R i scope w v) (only : Only i v v')
    (same : ∀ p, p ∉ rewritten → (v'.storage i).node p = (v.storage i).node p)
    (silent : ∀ e ∈ events, Silent S e) :
    Mirror S R i scope { w with log := w.log ++ events } v' := by
  refine mirror.advance (fun _ => false) only (fun p rare => same p rare) ?_
    (fun e he j _ p => (silent e he).1 j p) (fun e he => (silent e he).2) (fun _ h => h) ?_
  · intro p _ _
    symm
    rw [covered, List.any_eq_false]
    intro e he
    rw [(silent e he).1 i p]
    exact Bool.false_ne_true
  · intro e he p h
    rw [(silent e he).1 i p] at h
    cases h

end Mirror

section Rules
variable {S : Nat → Storage} {R : List Nat} {i : Nat} {before mid after : List Str → Prop} {α β : Type}

/-- The dry run and the real run of a command have one result, and take mirrored states to
mirrored states. -/
def Mirrored (S : Nat → Storage) (R : List Nat) (i : Nat) (before after : List Str → Prop) (Q : α → Prop)
    (m n : Command α) : Prop :=
  ∀ w v, Mirror S R i before w v →
    (exec m w).1 = (exec n v).1 ∧ Mirror S R i after (exec m w).2 (exec n v).2 ∧
      ∀ a, (exec m w).1 = .ok a → Q a

variable {Q : α → Prop} {Q' : β → Prop}

theorem mirrored_pure {a : α} (h : Q a) :
    Mirrored S R i before before Q (pure a : Command α) (pure a) :=
  fun _ _ mirror => ⟨rfl, mirror, fun _ same => by cases same; exact h⟩

theorem mirrored_orThrow {e : Except Error α} (h : ∀ a, e = .ok a → Q a) :
    Mirrored S R i before before Q (orThrow e) (orThrow e) := by
  intro w v mirror
  cases e with
  | error e => exact ⟨rfl, mirror, fun _ same => by cases same⟩
  | ok a => exact ⟨rfl, mirror, fun _ same => by cases same; exact h a rfl⟩

/-- What follows on a first part with one result in both runs, which may then end with different
results. -/
theorem mirror_bind {m n : Command α} {f g : α → Command β} {w v : World}
    (same : (exec m w).1 = (exec n v).1) (mirror : Mirror S R i mid (exec m w).2 (exec n v).2)
    (rest : ∀ a, (exec m w).1 = .ok a →
      Mirror S R i after (exec (f a) (exec m w).2).2 (exec (g a) (exec n v).2).2)
    (wider : ∀ p, mid p → after p) :
    Mirror S R i after (exec (m >>= f) w).2 (exec (n >>= g) v).2 :=
  bind_pair (C := fun a b => Mirror S R i after a.2 b.2) same (fun _ => mirror.mono wider) rest

/-- What follows on a first part with one result in both runs. -/
theorem after_bind {m n : Command α} {f g : α → Command β} {w v : World}
    (same : (exec m w).1 = (exec n v).1) (mirror : Mirror S R i mid (exec m w).2 (exec n v).2)
    (rest : ∀ a, (exec m w).1 = .ok a →
      (exec (f a) (exec m w).2).1 = (exec (g a) (exec n v).2).1 ∧
        Mirror S R i after (exec (f a) (exec m w).2).2 (exec (g a) (exec n v).2).2)
    (wider : ∀ p, mid p → after p) :
    (exec (m >>= f) w).1 = (exec (n >>= g) v).1 ∧
      Mirror S R i after (exec (m >>= f) w).2 (exec (n >>= g) v).2 :=
  bind_pair (C := fun a b => a.1 = b.1 ∧ Mirror S R i after a.2 b.2) same
    (fun _ => ⟨rfl, mirror.mono wider⟩) rest

theorem mirrored_bind {m n : Command α} {f g : α → Command β}
    (first : Mirrored S R i before mid Q m n)
    (rest : ∀ a, Q a → Mirrored S R i mid after Q' (f a) (g a)) (wider : ∀ p, mid p → after p) :
    Mirrored S R i before after Q' (m >>= f) (n >>= g) := by
  intro w v mirror
  obtain ⟨same, mirror', post⟩ := first w v mirror
  obtain ⟨result, mirror''⟩ := after_bind same mirror' (fun a ha =>
    let step := rest a (post a ha) _ _ mirror'
    ⟨step.1, step.2.1⟩) wider
  refine ⟨result, mirror'', fun b hb => ?_⟩
  rw [exec_bind] at hb
  rcases hm : exec m w with ⟨r, w'⟩
  rw [hm] at hb post mirror'
  cases r with
  | error e => cases hb
  | ok a => exact (rest a (post a rfl) w' _ mirror').2.2 b hb

theorem mirrored_foldlM {step step' : β → α → Command β} (items : List α)
    (one : ∀ b, Q' b → ∀ a ∈ items, Mirrored S R i after after Q' (step b a) (step' b a)) {b : β}
    (h : Q' b) : Mirrored S R i after after Q' (items.foldlM step b) (items.foldlM step' b) := by
  induction items generalizing b with
  | nil => exact mirrored_pure h
  | cons a rest ih =>
    rw [List.foldlM_cons, List.foldlM_cons]
    exact mirrored_bind (one b h a List.mem_cons_self)
      (fun b' h' => ih (fun c hc x hx => one c hc x (List.mem_cons_of_mem a hx)) h')
      (fun _ h => h)

theorem mirrored_logEvent {event : LogEvent} (silent : Silent S event) :
    Mirrored S R i before before (fun _ => True) (logEvent event) (logEvent event) := by
  intro w v mirror
  refine ⟨rfl, ?_, fun _ _ => trivial⟩
  rw [exec_logEvent, exec_logEvent]
  refine mirror.quiet (only_log v _) (fun _ _ => rfl) ?_
  intro e he
  rw [List.mem_singleton.mp he]
  exact silent

theorem mirrored_repoOptionIdx (j : Nat) :
    Mirrored S R i before before (fun _ => True) (repoOptionIdx j) (repoOptionIdx j) := by
  intro w v mirror
  refine ⟨?_, mirror, fun _ _ => trivial⟩
  rw [exec_repoOptionIdx, exec_repoOptionIdx, mirror.option]

/-- A message and the removal that it reports. -/
theorem mirrored_remove {event : LogEvent} {change : Storage → Storage}
    (spec : ∀ (t : Storage) p, (change t).node p = if covers i event p then none else t.node p)
    (about : About i event) (names : Names S event)
    (within : ∀ p, covers i event p = true → before p) :
    Mirrored S R i before before (fun _ => True)
      (do logEvent event; storageWrite i change) (do logEvent event; storageWrite i change) := by
  intro w v mirror
  have run (u : World) : exec (do logEvent event; storageWrite i change) u =
      (.ok ⟨⟩, World.write { u with log := u.log ++ [event] } i change) := rfl
  have still := write_of_dryRun (w := { w with log := w.log ++ [event] }) mirror.dry i change
  have removes := removes_write (v := { v with log := v.log ++ [event] }) mirror.real i spec
  rw [run, run, still]
  refine ⟨rfl, ?_, fun _ _ => trivial⟩
  refine mirror.advance (covers i event) ((only_log v _).trans removes.only)
    (fun p _ => removes.node p) ?_ ?_ ?_ (fun _ h => h) ?_
  · intro p _ _
    simp [covered]
  · intro e he
    rw [List.mem_singleton.mp he]
    exact about
  · intro e he
    rw [List.mem_singleton.mp he]
    exact names
  · intro e he
    rw [List.mem_singleton.mp he]
    exact within

/-- A load from a storage that both runs share. -/
theorem mirrored_load (storage : Storage) :
    Mirrored S R i before before
      (fun info => ∃ w, (exec (infoBackupLoadFileReconstruct storage) w).1 = .ok info)
      (infoBackupLoadFileReconstruct storage) (infoBackupLoadFileReconstruct storage) := by
  intro w v mirror
  obtain ⟨result, events, run, kind⟩ := infoBackupLoadFileReconstruct_onlyLogs storage
  refine ⟨by rw [run, run], ?_, fun info h => ⟨w, h⟩⟩
  rw [run, run]
  refine mirror.quiet (only_log v _) (fun _ _ => rfl) (fun e he => ?_)
  have := kind e he
  cases e <;> first | exact ⟨fun _ _ => rfl, trivial⟩ | cases this

end Rules

section DryRuns
variable {S : Nat → Storage} {K : LogEvent → Prop} {α β : Type}

/-- A dry run of the command ends with a result, and logs messages of one kind. -/
def DryRuns (S : Nat → Storage) (K : LogEvent → Prop) (m : Command α) : Prop :=
  ∀ w, w.storage = S → w.config.real = false →
    ∃ a events, exec m w = (.ok a, { w with log := w.log ++ events }) ∧ ∀ e ∈ events, K e

theorem dryRuns_pure (a : α) : DryRuns S K (pure a : Command α) :=
  fun w _ _ => ⟨a, [], by simp, by simp⟩

theorem dryRuns_logEvent {event : LogEvent} (h : K event) : DryRuns S K (logEvent event) :=
  fun w _ _ => ⟨⟨⟩, [event], rfl, by simpa using h⟩

theorem dryRuns_storageWrite (i : Nat) (change : Storage → Storage) :
    DryRuns S K (storageWrite i change) := by
  intro w _ dry
  refine ⟨⟨⟩, [], ?_, by simp⟩
  rw [exec_storageWrite, write_of_dryRun dry, List.append_nil]

theorem DryRuns.bind {m : Command α} {f : α → Command β} (first : DryRuns S K m)
    (rest : ∀ a, DryRuns S K (f a)) : DryRuns S K (m >>= f) := by
  intro w kept dry
  obtain ⟨a, events, run, kind⟩ := first w kept dry
  obtain ⟨b, events', run', kind'⟩ := rest a { w with log := w.log ++ events } kept dry
  refine ⟨b, events ++ events', ?_, ?_⟩
  · rw [exec_bind_of_ok run, run', List.append_assoc]
  · intro e he
    rcases List.mem_append.mp he with he | he
    · exact kind e he
    · exact kind' e he

theorem DryRuns.foldlM {step : β → α → Command β} (items : List α)
    (one : ∀ b, ∀ a ∈ items, DryRuns S K (step b a)) (b : β) :
    DryRuns S K (items.foldlM step b) := by
  induction items generalizing b with
  | nil => exact dryRuns_pure b
  | cons a rest ih =>
    rw [List.foldlM_cons]
    exact DryRuns.bind (one b a List.mem_cons_self)
      (fun b' => ih (fun c x hx => one c x (List.mem_cons_of_mem a hx)) b')

/-- A loop whose rounds log a message or nothing logs those messages. -/
theorem exec_foldlM_said {step : α → Command PUnit} {said : α → Bool} {event : α → LogEvent}
    (items : List α) {w : World} (one : ∀ log a, exec (step a) { w with log := log } =
      (.ok ⟨⟩, { w with log := log ++ if said a then [event a] else [] })) :
    exec (items.foldlM (fun _ a => step a) ⟨⟩) w =
      (.ok ⟨⟩, { w with log := w.log ++ (items.filter said).map event }) := by
  induction items generalizing w with
  | nil => simp
  | cons a rest ih =>
    have later := ih (w := { w with log := w.log ++ if said a then [event a] else [] }) one
    rw [List.foldlM_cons, exec_bind_of_ok (one w.log a), later, List.filter_cons]
    split <;> simp

end DryRuns

end DryRun
