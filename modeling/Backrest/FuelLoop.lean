import Mathlib.Order.WellFounded

/-!
# Loops that are run with fuel

A loop of a program that need not end is run with a number of rounds. It is
`running` when the rounds do not suffice. A call returns when all large enough
numbers of rounds give one result, and `loop_returns` is the rule for total
correctness: an invariant, and a well-founded relation that every round
decreases.
-/

namespace FuelLoop

universe u v w

inductive Outcome (ε : Type v) (α : Type u) where
  | running
  | error (e : ε)
  | ok (a : α)

variable {ε : Type v} {α β σ : Type u}

def Outcome.bind {α : Type u} {β : Type w} : Outcome ε α → (α → Outcome ε β) → Outcome ε β
  | .running, _ => .running
  | .error e, _ => .error e
  | .ok a, f => f a

@[simp]
theorem Outcome.ok_bind {β : Type w} (a : α) (f : α → Outcome ε β) : (Outcome.ok a).bind f = f a :=
  rfl

theorem Outcome.bind_eq_ok {β : Type w} {x : Outcome ε α} {f : α → Outcome ε β} {b : β} :
    x.bind f = .ok b ↔ ∃ a, x = .ok a ∧ f a = .ok b := by
  cases x with
  | running => exact ⟨nofun, nofun⟩
  | error e => exact ⟨nofun, nofun⟩
  | ok a =>
    constructor
    · exact fun run => ⟨a, rfl, run⟩
    · rintro ⟨_, same, run⟩
      cases same
      exact run

/-- Rounds of a loop: each goes on with a state or stops with a result. -/
def loop (step : σ → Outcome ε (σ ⊕ α)) : Nat → σ → Outcome ε α
  | 0, _ => .running
  | count + 1, s => (step s).bind fun
    | .inl s' => loop step count s'
    | .inr a => .ok a

def Returns (call : Nat → Outcome ε α) (a : α) : Prop :=
  ∃ enough, ∀ fuel, enough ≤ fuel → call fuel = .ok a

variable {call : Nat → Outcome ε α} {a : α} {f : Nat → α → Outcome ε β}

theorem Returns.of_eq (h : ∀ fuel, call fuel = .ok a) :
    Returns call a :=
  ⟨0, fun fuel _ => h fuel⟩

theorem Returns.unique {b : α} (one : Returns call a) (two : Returns call b) : a = b := by
  obtain ⟨n, first⟩ := one
  obtain ⟨m, second⟩ := two
  have same := (first (max n m) (le_max_left n m)).symm.trans (second (max n m) (le_max_right n m))
  cases same
  rfl

theorem Returns.bind {β : Type w} {f : Nat → α → Outcome ε β} {b : β} (first : Returns call a)
    (rest : Returns (fun fuel => f fuel a) b) :
    Returns (fun fuel => (call fuel).bind (f fuel)) b := by
  obtain ⟨n, first⟩ := first
  obtain ⟨m, rest⟩ := rest
  refine ⟨max n m, fun fuel large => ?_⟩
  change (call fuel).bind (f fuel) = _
  rw [first fuel ((le_max_left n m).trans large)]
  exact rest fuel ((le_max_right n m).trans large)

/-- A result stays the same with more fuel. -/
def Mono (call : Nat → Outcome ε α) : Prop :=
  ∀ n m a, n ≤ m → call n = .ok a → call m = .ok a

theorem Mono.returns (mono : Mono call) {fuel : Nat} (run : call fuel = .ok a) : Returns call a :=
  ⟨fuel, fun m large => mono fuel m a large run⟩

theorem Mono.const (x : Outcome ε α) : Mono fun _ => x := fun _ _ _ _ run => run

theorem Mono.bind {β : Type w} {f : Nat → α → Outcome ε β} (first : Mono call)
    (rest : ∀ a, Mono fun fuel => f fuel a) : Mono fun fuel => (call fuel).bind (f fuel) := by
  intro n m b large run
  obtain ⟨a, now, later⟩ := Outcome.bind_eq_ok.mp run
  exact Outcome.bind_eq_ok.mpr ⟨a, first n m a large now, rest a n m b large later⟩

def Hangs (call : Nat → Outcome ε α) : Prop :=
  ∃ enough, ∀ fuel, enough ≤ fuel → call fuel = .running

theorem Hangs.not_returns (hangs : Hangs call) (a : α) : ¬ Returns call a := by
  rintro ⟨n, returns⟩
  obtain ⟨m, hangs⟩ := hangs
  have same := (hangs (max n m) (le_max_right n m)).symm.trans (returns (max n m) (le_max_left n m))
  cases same

theorem Hangs.bind {β : Type w} (hangs : Hangs call) (f : Nat → α → Outcome ε β) :
    Hangs (fun fuel => (call fuel).bind (f fuel)) := by
  obtain ⟨n, hangs⟩ := hangs
  refine ⟨n, fun fuel large => ?_⟩
  change (call fuel).bind (f fuel) = _
  rw [hangs fuel large]
  rfl

theorem Returns.hangs {β : Type w} {f : Nat → α → Outcome ε β} (first : Returns call a)
    (rest : Hangs (fun fuel => f fuel a)) :
    Hangs (fun fuel => (call fuel).bind (f fuel)) := by
  obtain ⟨n, first⟩ := first
  obtain ⟨m, rest⟩ := rest
  refine ⟨max n m, fun fuel large => ?_⟩
  change (call fuel).bind (f fuel) = _
  rw [first fuel ((le_max_left n m).trans large)]
  exact rest fuel ((le_max_right n m).trans large)

section Loop
variable {step : Nat → σ → Outcome ε (σ ⊕ α)} {s s' : σ} {a : α}

/-- With enough fuel for its body and enough rounds a loop gives this result. -/
def LoopReturns (step : Nat → σ → Outcome ε (σ ⊕ α)) (s : σ) (a : α) : Prop :=
  ∃ enough, ∀ fuel count, enough ≤ fuel → enough ≤ count → loop (step fuel) count s = .ok a

theorem LoopReturns.returns (h : LoopReturns step s a) :
    Returns (fun fuel => loop (step fuel) fuel s) a := by
  obtain ⟨enough, run⟩ := h
  exact ⟨enough, fun fuel large => run fuel fuel large large⟩

theorem LoopReturns.stop (stops : Returns (fun fuel => step fuel s) (.inr a)) :
    LoopReturns step s a := by
  obtain ⟨n, stops⟩ := stops
  refine ⟨n + 1, fun fuel count large many => ?_⟩
  obtain ⟨count, rfl⟩ : ∃ k, count = k + 1 := ⟨count - 1, by omega⟩
  have now : step fuel s = .ok (.inr a) := stops fuel (by omega)
  rw [loop, now]
  rfl

theorem LoopReturns.next (rest : LoopReturns step s' a)
    (goesOn : Returns (fun fuel => step fuel s) (.inl s')) : LoopReturns step s a := by
  obtain ⟨n, goesOn⟩ := goesOn
  obtain ⟨m, rest⟩ := rest
  refine ⟨max n m + 1, fun fuel count large many => ?_⟩
  obtain ⟨count, rfl⟩ : ∃ k, count = k + 1 := ⟨count - 1, by omega⟩
  have := le_max_left n m
  have := le_max_right n m
  have now : step fuel s = .ok (.inl s') := goesOn fuel (by omega)
  rw [loop, now]
  exact rest fuel count (by omega) (by omega)

/-- Every round keeps `P` and decreases `r`, or stops with `Q`. -/
theorem loop_returns {r : σ → σ → Prop} {P : σ → Prop} {Q : α → Prop}
    (round : ∀ s, P s →
      (∃ s', Returns (fun fuel => step fuel s) (.inl s') ∧ P s' ∧ r s' s) ∨
      ∃ a, Returns (fun fuel => step fuel s) (.inr a) ∧ Q a)
    (acc : Acc r s) (start : P s) : ∃ a, LoopReturns step s a ∧ Q a := by
  induction acc with
  | intro s _ ih =>
    rcases round s start with ⟨s', goesOn, next, smaller⟩ | ⟨a, stops, isQ⟩
    · obtain ⟨a, run, isQ⟩ := ih s' smaller next
      exact ⟨a, run.next goesOn, isQ⟩
    · exact ⟨a, .stop stops, isQ⟩

/-- Partial correctness: what every round that goes on keeps, and what every round that stops gives. -/
theorem loop_ok {step : σ → Outcome ε (σ ⊕ α)} {P : σ → Prop} {Q : α → Prop}
    (goesOn : ∀ s s', P s → step s = .ok (.inl s') → P s')
    (stops : ∀ s a, P s → step s = .ok (.inr a) → Q a) {count : Nat} (start : P s)
    (run : loop step count s = .ok a) : Q a := by
  induction count generalizing s with
  | zero => cases run
  | succ count ih =>
    rw [loop, Outcome.bind_eq_ok] at run
    obtain ⟨next, round, run⟩ := run
    cases next with
    | inl s' => exact ih (goesOn s s' start round) run
    | inr b =>
      cases run
      exact stops s a start round

/-- A loop whose every round keeps `P` and goes on never returns. -/
theorem loop_running {step : σ → Outcome ε (σ ⊕ α)} {P : σ → Prop}
    (round : ∀ s, P s → step s = .running ∨ ∃ s', step s = .ok (.inl s') ∧ P s')
    (start : P s) (count : Nat) : loop step count s = .running := by
  induction count generalizing s with
  | zero => rfl
  | succ count ih =>
    rw [loop]
    rcases round s start with still | ⟨s', goesOn, next⟩
    · rw [still]
      rfl
    · rw [goesOn]
      exact ih next

/-- With enough fuel for its body a loop goes on for any number of rounds. -/
def LoopHangs (step : Nat → σ → Outcome ε (σ ⊕ α)) (s : σ) : Prop :=
  ∃ enough, ∀ fuel count, enough ≤ fuel → loop (step fuel) count s = .running

theorem LoopHangs.next (rest : LoopHangs step s')
    (goesOn : Returns (fun fuel => step fuel s) (.inl s')) : LoopHangs step s := by
  obtain ⟨n, goesOn⟩ := goesOn
  obtain ⟨m, rest⟩ := rest
  refine ⟨max n m, fun fuel count large => ?_⟩
  cases count with
  | zero => rfl
  | succ count =>
    have now : step fuel s = .ok (.inl s') := goesOn fuel ((le_max_left n m).trans large)
    rw [loop, now]
    exact rest fuel count ((le_max_right n m).trans large)

/-- Rounds that keep `P` and go on, whatever the fuel of the body is. -/
theorem LoopHangs.stay {P : σ → Prop}
    (round : ∀ fuel s, P s → step fuel s = .running ∨ ∃ s', step fuel s = .ok (.inl s') ∧ P s')
    (start : P s) : LoopHangs step s :=
  ⟨0, fun fuel count _ => loop_running (round fuel) start count⟩

theorem LoopHangs.hangs (h : LoopHangs step s) : Hangs (fun fuel => loop (step fuel) fuel s) := by
  obtain ⟨enough, run⟩ := h
  exact ⟨enough, fun fuel large => run fuel fuel large⟩

theorem Mono.loop (mono : ∀ s, Mono fun fuel => step fuel s) (s : σ) :
    Mono fun fuel => FuelLoop.loop (step fuel) fuel s := by
  have both : ∀ count count' fuel fuel' s a, count ≤ count' → fuel ≤ fuel' →
      FuelLoop.loop (step fuel) count s = .ok a → FuelLoop.loop (step fuel') count' s = .ok a := by
    intro count
    induction count with
    | zero => exact fun _ _ _ _ _ _ _ run => by cases run
    | succ count ih =>
      intro count' fuel fuel' s a more large run
      obtain ⟨k, rfl⟩ : ∃ k, count' = k + 1 := ⟨count' - 1, by omega⟩
      rw [FuelLoop.loop, Outcome.bind_eq_ok] at run ⊢
      obtain ⟨next, now, later⟩ := run
      refine ⟨next, mono s fuel fuel' next large now, ?_⟩
      cases next with
      | inl s' => exact ih k fuel fuel' s' a (by omega) large later
      | inr b => exact later
  exact fun n m a large run => both n m n m s a large large run

end Loop

end FuelLoop
