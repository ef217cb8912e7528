import Mathlib.Order.Basic

/-!
# Computations that change a state and may fail

A computation runs from a state to a result and a new state. The new state is
kept when the result is an error, so what was done before a failure stays done.
`Keeps` is a relation between the state before and after one computation,
`Triple` a condition before it with one for each way it may end, and `Related`
compares two computations run from two related states. All are closed under
sequencing.
-/

namespace Effects

universe u

/-- A computation over the state `σ` with errors in `ε`. -/
abbrev Effect (ε σ : Type u) := ExceptT ε (StateM σ)

variable {ε σ τ α β : Type u}

def exec (m : Effect ε σ α) (s : σ) : Except ε α × σ := m.run.run s

@[simp]
theorem exec_pure (a : α) (s : σ) : exec (pure a : Effect ε σ α) s = (.ok a, s) := rfl

@[simp]
theorem exec_throw (e : ε) (s : σ) : exec (throw e : Effect ε σ α) s = (.error e, s) := rfl

@[simp]
theorem exec_get (s : σ) : exec (get : Effect ε σ σ) s = (.ok s, s) := rfl

@[simp]
theorem exec_modify (f : σ → σ) (s : σ) :
    exec (modify f : Effect ε σ PUnit) s = (.ok ⟨⟩, f s) := rfl

theorem exec_bind (m : Effect ε σ α) (f : α → Effect ε σ β) (s : σ) :
    exec (m >>= f) s = match exec m s with
      | (.ok a, s') => exec (f a) s'
      | (.error e, s') => (.error e, s') := by
  change ((ExceptT.bindCont f (m s).1) (m s).2) = _
  change _ = match m s with
    | (.ok a, s') => exec (f a) s'
    | (.error e, s') => (.error e, s')
  rcases m s with ⟨r, s'⟩
  cases r <;> rfl

theorem exec_tryCatch (m : Effect ε σ α) (handle : ε → Effect ε σ α) (s : σ) :
    exec (tryCatch m handle) s = match exec m s with
      | (.ok a, s') => (.ok a, s')
      | (.error e, s') => exec (handle e) s' := by
  change (ExceptT.tryCatch m handle) s = match m s with
    | (.ok a, s') => (.ok a, s')
    | (.error e, s') => exec (handle e) s'
  rw [ExceptT.tryCatch]
  change (match (m s).1 with
    | .ok a => (pure (.ok a) : StateM σ (Except ε α))
    | .error e => handle e) (m s).2 = _
  rcases m s with ⟨r, s'⟩
  cases r <;> rfl

theorem exec_bind_of_ok {m : Effect ε σ α} {f : α → Effect ε σ β} {s s' : σ} {a : α}
    (h : exec m s = (.ok a, s')) : exec (m >>= f) s = exec (f a) s' := by
  rw [exec_bind, h]

theorem exec_bind_of_error {m : Effect ε σ α} {f : α → Effect ε σ β} {s s' : σ} {e : ε}
    (h : exec m s = (.error e, s')) : exec (m >>= f) s = (.error e, s') := by
  rw [exec_bind, h]

/-- Two sequences whose first parts have one result. -/
theorem bind_pair {C : Except ε β × σ → Except ε β × τ → Prop} {m : Effect ε σ α} {n : Effect ε τ α}
    {f : α → Effect ε σ β} {g : α → Effect ε τ β} {s : σ} {t : τ}
    (same : (exec m s).1 = (exec n t).1)
    (failed : ∀ e, C (.error e, (exec m s).2) (.error e, (exec n t).2))
    (rest : ∀ a, (exec m s).1 = .ok a → C (exec (f a) (exec m s).2) (exec (g a) (exec n t).2)) :
    C (exec (m >>= f) s) (exec (n >>= g) t) := by
  rw [exec_bind, exec_bind]
  rcases hm : exec m s with ⟨r, s'⟩
  rcases hn : exec n t with ⟨r', t'⟩
  rw [hm, hn] at same failed rest
  change r = r' at same
  subst same
  cases r with
  | error e => exact failed e
  | ok a => exact rest a rfl

/-- A result of a sequence comes from a result of its first part. -/
theorem exec_bind_ok {m : Effect ε σ α} {f : α → Effect ε σ β} {s s'' : σ} {b : β}
    (h : exec (m >>= f) s = (.ok b, s'')) :
    ∃ a s', exec m s = (.ok a, s') ∧ exec (f a) s' = (.ok b, s'') := by
  rw [exec_bind] at h
  rcases hm : exec m s with ⟨_ | a, s'⟩
  · rw [hm] at h
    cases h
  · rw [hm] at h
    exact ⟨a, s', rfl, h⟩

/-- A property of the accumulator and the state that every successful round keeps holds after a
successful loop. -/
theorem foldlM_ok {P : β → σ → Prop} {step : β → α → Effect ε σ β} {items : List α}
    (one : ∀ b s b' s', ∀ a ∈ items, P b s → exec (step b a) s = (.ok b', s') → P b' s')
    {b b' : β} {s s' : σ} (h : P b s)
    (run : exec (items.foldlM step b) s = (.ok b', s')) : P b' s' := by
  induction items generalizing b s with
  | nil =>
    rw [List.foldlM_nil, exec_pure] at run
    cases run
    exact h
  | cons a rest ih =>
    rw [List.foldlM_cons] at run
    obtain ⟨c, t, first, tail⟩ := exec_bind_ok run
    exact ih (fun b s b' s' x hx => one b s b' s' x (List.mem_cons_of_mem a hx))
      (one b s c t a List.mem_cons_self h first) tail

/-- A result of a sequence without state comes from a result of its first part. -/
theorem except_bind_ok {m : Except ε α} {f : α → Except ε β} {b : β} (h : m >>= f = .ok b) :
    ∃ a, m = .ok a ∧ f a = .ok b := by
  cases m with
  | error e => cases h
  | ok a => exact ⟨a, rfl, h⟩

theorem except_bind_ok_iff {m : Except ε α} {f : α → Except ε β} {b : β} :
    m >>= f = .ok b ↔ ∃ a, m = .ok a ∧ f a = .ok b := by
  constructor
  · exact except_bind_ok
  · rintro ⟨a, rfl, run⟩
    exact run

/-- A computation succeeds exactly under a condition, and then with one result. -/
def Decides (m : Except ε α) (P : Prop) (a : α) : Prop := ∀ out, m = .ok out ↔ P ∧ out = a

section Decides
variable {m : Except ε α} {f : α → Except ε β} {P Q : Prop} {a a' : α} {b : β}

theorem Decides.of_eq (h : m = .ok a) : Decides m True a := by
  intro out
  rw [h, Except.ok.injEq, true_and, eq_comm]

theorem Decides.of_error {e : ε} (h : m = .error e) (not : ¬ P) : Decides m P a := by
  subst h
  exact fun out => iff_of_false nofun fun both => not both.1

theorem Decides.congr (decides : Decides m P a) (same : P ↔ Q) (result : a = a') :
    Decides m Q a' := by
  subst result
  intro out
  rw [decides out, same]

theorem Decides.bind (first : Decides m P a) (second : Decides (f a) Q b) :
    Decides (m >>= f) (P ∧ Q) b := by
  intro out
  rw [except_bind_ok_iff, and_assoc, ← second out]
  constructor
  · rintro ⟨c, ok, run⟩
    obtain ⟨holds, rfl⟩ := (first c).mp ok
    exact ⟨holds, run⟩
  · rintro ⟨holds, run⟩
    exact ⟨a, (first a).mpr ⟨holds, rfl⟩, run⟩

theorem Decides.map (decides : Decides m P a) (g : α → β) :
    Decides (m >>= fun c => pure (g c)) P (g a) :=
  Decides.congr (decides.bind (Decides.of_eq rfl)) (by rw [and_true]) rfl

theorem Decides.after (h : m = .ok a) (second : Decides (f a) Q b) : Decides (m >>= f) Q b := by
  subst h
  exact second

end Decides

/-- The same rule for a loop that has no state. -/
theorem except_foldlM_ok {P : β → Prop} {step : β → α → Except ε β} {items : List α}
    (one : ∀ b b', ∀ a ∈ items, P b → step b a = .ok b' → P b') {b b' : β} (h : P b)
    (run : items.foldlM step b = .ok b') : P b' := by
  induction items generalizing b with
  | nil =>
    cases run
    exact h
  | cons a rest ih =>
    rw [List.foldlM_cons] at run
    cases hs : step b a with
    | error e =>
      rw [hs] at run
      cases run
    | ok c =>
      rw [hs] at run
      exact ih (fun b b' x hx => one b b' x (List.mem_cons_of_mem a hx))
        (one b c a List.mem_cons_self h hs) run

theorem except_foldlM_ne {e : ε} {step : β → α → Except ε β} (one : ∀ b a, step b a ≠ .error e)
    (items : List α) (b : β) : items.foldlM step b ≠ .error e := by
  induction items generalizing b with
  | nil => exact nofun
  | cons a rest ih =>
    rw [List.foldlM_cons]
    cases first : step b a with
    | error other =>
      have different := one b a
      rwa [first] at different
    | ok c => exact ih c

section Keeps
variable {R : σ → σ → Prop}

/-- Every run, failed or not, relates its first state to its last. -/
def Keeps (R : σ → σ → Prop) (m : Effect ε σ α) : Prop := ∀ s, R s (exec m s).2

theorem Keeps.pure (refl : ∀ s, R s s) (a : α) : Keeps R (Pure.pure a : Effect ε σ α) :=
  fun s => refl s

theorem Keeps.throw (refl : ∀ s, R s s) (e : ε) :
    Keeps R (MonadExcept.throw e : Effect ε σ α) :=
  fun s => refl s

theorem Keeps.bind (trans : ∀ a b c, R a b → R b c → R a c) {m : Effect ε σ α}
    {f : α → Effect ε σ β} (first : Keeps R m) (rest : ∀ a, Keeps R (f a)) :
    Keeps R (m >>= f) := by
  intro s
  have start := first s
  rw [exec_bind]
  rcases hm : exec m s with ⟨_ | a, s'⟩
  · rw [hm] at start
    exact start
  · rw [hm] at start
    exact trans _ _ _ start (rest a s')

theorem Keeps.foldlM (refl : ∀ s, R s s) (trans : ∀ a b c, R a b → R b c → R a c)
    {step : β → α → Effect ε σ β} (items : List α) (one : ∀ b, ∀ a ∈ items, Keeps R (step b a))
    (b : β) : Keeps R (items.foldlM step b) := by
  induction items generalizing b with
  | nil => exact Keeps.pure refl b
  | cons a rest ih =>
    rw [List.foldlM_cons]
    exact Keeps.bind trans (one b a List.mem_cons_self)
      (fun b' => ih (fun c x hx => one c x (List.mem_cons_of_mem a hx)) b')

end Keeps

section Triple

/-- From a state with `P` a run ends with `Q`, or with `E` when it fails. -/
def Triple (P : σ → Prop) (m : Effect ε σ α) (Q : α → σ → Prop) (E : ε → σ → Prop) : Prop :=
  ∀ s, P s → match exec m s with
    | (.ok a, s') => Q a s'
    | (.error e, s') => E e s'

variable {P : σ → Prop} {E : ε → σ → Prop}

theorem Triple.pure {Q : α → σ → Prop} {a : α} (h : ∀ s, P s → Q a s) :
    Triple P (Pure.pure a : Effect ε σ α) Q E := h

theorem Triple.bind {R : α → σ → Prop} {Q : β → σ → Prop} {m : Effect ε σ α}
    {f : α → Effect ε σ β} (first : Triple P m R E) (rest : ∀ a, Triple (R a) (f a) Q E) :
    Triple P (m >>= f) Q E := by
  intro s hs
  have start := first s hs
  rw [exec_bind]
  rcases hm : exec m s with ⟨_ | a, s'⟩
  · rw [hm] at start
    exact start
  · rw [hm] at start
    exact rest a s' start

theorem Triple.mono {Q Q' : α → σ → Prop} {m : Effect ε σ α} (h : Triple P m Q E)
    (weaker : ∀ a s, Q a s → Q' a s) : Triple P m Q' E := by
  intro s hs
  have run := h s hs
  rcases hm : exec m s with ⟨_ | a, s'⟩
  · rw [hm] at run
    exact run
  · rw [hm] at run
    exact weaker a s' run

/-- A computation may start by reading the state. -/
theorem Triple.get_bind {Q : α → σ → Prop} {f : σ → Effect ε σ α}
    (rest : ∀ s, P s → Triple P (f s) Q E) : Triple P (MonadState.get >>= f) Q E :=
  fun s hs => rest s hs s hs

end Triple

section Related
variable {R : σ → τ → Prop}

/-- Two computations give one result from related states, and leave related states. -/
def Related (R : σ → τ → Prop) (m : Effect ε σ α) (n : Effect ε τ α) : Prop :=
  ∀ s t, R s t → (exec m s).1 = (exec n t).1 ∧ R (exec m s).2 (exec n t).2

theorem Related.pure (a : α) :
    Related R (Pure.pure a : Effect ε σ α) (Pure.pure a : Effect ε τ α) :=
  fun _ _ h => ⟨rfl, h⟩

theorem Related.throw (e : ε) :
    Related R (MonadExcept.throw e : Effect ε σ α) (MonadExcept.throw e : Effect ε τ α) :=
  fun _ _ h => ⟨rfl, h⟩

theorem Related.bind {m : Effect ε σ α} {n : Effect ε τ α} {f : α → Effect ε σ β}
    {g : α → Effect ε τ β} (first : Related R m n) (rest : ∀ a, Related R (f a) (g a)) :
    Related R (m >>= f) (n >>= g) := by
  intro s t h
  obtain ⟨same, after⟩ := first s t h
  exact bind_pair (C := fun a b => a.1 = b.1 ∧ R a.2 b.2) same (fun _ => ⟨rfl, after⟩)
    (fun a _ => rest a _ _ after)

theorem Related.foldlM {step : β → α → Effect ε σ β} {step' : β → α → Effect ε τ β}
    (items : List α) (one : ∀ b, ∀ a ∈ items, Related R (step b a) (step' b a)) (b : β) :
    Related R (items.foldlM step b) (items.foldlM step' b) := by
  induction items generalizing b with
  | nil => exact Related.pure b
  | cons a rest ih =>
    rw [List.foldlM_cons, List.foldlM_cons]
    exact Related.bind (one b a List.mem_cons_self)
      (fun b' => ih (fun c x hx => one c x (List.mem_cons_of_mem a hx)) b')

end Related

end Effects
