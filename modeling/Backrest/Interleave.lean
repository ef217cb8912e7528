import Mathlib.Data.List.Basic

/-!
# Programs of single operations and their interleavings

A program asks for one operation at a time and goes on with the answer. Alone
it runs to its end. Several programs over one state take turns in any order, one
operation a turn. What every operation of a program obeys, whatever the answers
were (`Only`), holds of every turn of that program in every interleaving.
-/

namespace Interleave

variable {Op : Type} {Resp : Op → Type} {ε μ σ α β : Type}

/-- A program that ends with a result or an error. -/
inductive Prog (ε : Type) {Op : Type} (Resp : Op → Type) (α : Type) : Type where
  | done (r : Except ε α)
  | call (op : Op) (next : Resp op → Prog ε Resp α)

namespace Prog

protected def bind : Prog ε Resp α → (α → Prog ε Resp β) → Prog ε Resp β
  | .done (.ok a), f => f a
  | .done (.error e), _ => .done (.error e)
  | .call op next, f => .call op fun r => (next r).bind f

protected def recover : Prog ε Resp α → (ε → Prog ε Resp α) → Prog ε Resp α
  | .done (.ok a), _ => .done (.ok a)
  | .done (.error e), f => f e
  | .call op next, f => .call op fun r => (next r).recover f

instance : Monad (Prog ε Resp) where
  pure a := .done (.ok a)
  bind := Prog.bind

instance : MonadExcept ε (Prog ε Resp) where
  throw e := .done (.error e)
  tryCatch := Prog.recover

def ask (op : Op) : Prog ε Resp (Resp op) := .call op fun r => .done (.ok r)

def run (handle : (op : Op) → σ → Resp op × σ) : Prog ε Resp α → σ → Except ε α × σ
  | .done r, s => (r, s)
  | .call op next, s => (next (handle op s).1).run handle (handle op s).2

end Prog

section Run
variable {handle : (op : Op) → σ → Resp op × σ}

@[simp]
theorem run_pure (a : α) (s : σ) :
    (pure a : Prog ε Resp α).run handle s = (.ok a, s) := rfl

@[simp]
theorem run_throw (e : ε) (s : σ) :
    (throw e : Prog ε Resp α).run handle s = (.error e, s) := rfl

@[simp]
theorem run_ask (op : Op) (s : σ) :
    (Prog.ask op : Prog ε Resp (Resp op)).run handle s = (.ok (handle op s).1, (handle op s).2) :=
  rfl

theorem run_bind (m : Prog ε Resp α) (f : α → Prog ε Resp β) (s : σ) :
    (m >>= f).run handle s = match m.run handle s with
      | (.ok a, s') => (f a).run handle s'
      | (.error e, s') => (.error e, s') := by
  change (m.bind f).run handle s = _
  induction m generalizing s with
  | done r => cases r <;> rfl
  | call op next ih => exact ih _ _

theorem run_bind_of_ok {m : Prog ε Resp α} {f : α → Prog ε Resp β} {s s' : σ} {a : α}
    (h : m.run handle s = (.ok a, s')) : (m >>= f).run handle s = (f a).run handle s' := by
  rw [run_bind, h]

end Run

section Only
variable {P : Op → Prop}

/-- Every operation the program may ask for. -/
def Only (P : Op → Prop) : Prog ε Resp α → Prop
  | .done _ => True
  | .call op next => P op ∧ ∀ r, Only P (next r)

theorem Only.pure (a : α) : Only P (pure a : Prog ε Resp α) := trivial

theorem Only.throw (e : ε) : Only P (throw e : Prog ε Resp α) := trivial

theorem Only.ask {op : Op} (h : P op) : Only P (Prog.ask op : Prog ε Resp (Resp op)) :=
  ⟨h, fun _ => trivial⟩

theorem Only.bind {m : Prog ε Resp α} {f : α → Prog ε Resp β} (first : Only P m)
    (rest : ∀ a, Only P (f a)) : Only P (m >>= f) := by
  change Only P (m.bind f)
  induction m with
  | done r =>
    cases r with
    | ok a => exact rest a
    | error e => trivial
  | call op next ih => exact ⟨first.1, fun r => ih r (first.2 r)⟩

theorem Only.tryCatch {m : Prog ε Resp α} {f : ε → Prog ε Resp α} (first : Only P m)
    (handler : ∀ e, Only P (f e)) : Only P (tryCatch m f) := by
  change Only P (m.recover f)
  induction m with
  | done r =>
    cases r with
    | ok a => trivial
    | error e => exact handler e
  | call op next ih => exact ⟨first.1, fun r => ih r (first.2 r)⟩

theorem Only.foldlM {step : β → α → Prog ε Resp β} {items : List α}
    (one : ∀ b, ∀ a ∈ items, Only P (step b a)) (b : β) : Only P (items.foldlM step b) := by
  induction items generalizing b with
  | nil => exact Only.pure b
  | cons a rest ih =>
    rw [List.foldlM_cons]
    exact Only.bind (one b a List.mem_cons_self)
      (fun b' => ih (fun c x hx => one c x (List.mem_cons_of_mem a hx)) b')

end Only

section Turns

/-- A running program with the part it plays. -/
structure Process (μ ε : Type) {Op : Type} (Resp : Op → Type) where
  mode : μ
  prog : Prog ε Resp PUnit.{1}

/-- One turn: who asked for what, and the state before and after. -/
structure Event (μ Op σ : Type) where
  mode : μ
  op : Op
  before : σ
  after : σ

variable {handle : (op : Op) → σ → Resp op × σ}

/-- The processes take turns in any order. -/
inductive Turns (handle : (op : Op) → σ → Resp op × σ) :
    σ → List (Process μ ε Resp) → List (Event μ Op σ) → σ → List (Process μ ε Resp) → Prop where
  | none (s : σ) (procs : List (Process μ ε Resp)) : Turns handle s procs [] s procs
  | turn {s t : σ} {front back procs : List (Process μ ε Resp)} {mode : μ} {op : Op}
      {next : Resp op → Prog ε Resp PUnit.{1}} {events : List (Event μ Op σ)}
      (rest : Turns handle (handle op s).2
        (front ++ ⟨mode, next (handle op s).1⟩ :: back) events t procs) :
      Turns handle s (front ++ ⟨mode, .call op next⟩ :: back)
        (⟨mode, op, s, (handle op s).2⟩ :: events) t procs

/-- Every turn is an operation its process may ask for. -/
theorem Turns.only {P : μ → Op → Prop} {s t : σ} {procs procs' : List (Process μ ε Resp)}
    {events : List (Event μ Op σ)} (run : Turns handle s procs events t procs')
    (h : ∀ p ∈ procs, Only (P p.mode) p.prog) :
    ∀ e ∈ events, P e.mode e.op ∧ e.after = (handle e.op e.before).2 := by
  induction run with
  | none s procs => simp
  | @turn s t front back procs mode op next events rest ih =>
    have own := h ⟨mode, .call op next⟩ (by simp)
    intro e he
    rcases List.mem_cons.mp he with rfl | he
    · exact ⟨own.1, rfl⟩
    · refine ih ?_ e he
      intro p hp
      rcases List.mem_append.mp hp with hp | hp
      · exact h p (List.mem_append_left _ hp)
      · rcases List.mem_cons.mp hp with rfl | hp
        · exact own.2 _
        · exact h p (List.mem_append_right _ (List.mem_cons_of_mem _ hp))

/-- The turns of a program that runs alone. -/
def trace (handle : (op : Op) → σ → Resp op × σ) (mode : μ) :
    Prog ε Resp PUnit.{1} → σ → List (Event μ Op σ)
  | .done _, _ => []
  | .call op next, s =>
    ⟨mode, op, s, (handle op s).2⟩ :: trace handle mode (next (handle op s).1) (handle op s).2

theorem turns_trace (mode : μ) (prog : Prog ε Resp PUnit.{1}) (s : σ) :
    ∃ t procs, Turns handle s [⟨mode, prog⟩] (trace handle mode prog s) t procs := by
  induction prog generalizing s with
  | done r => exact ⟨s, _, Turns.none s _⟩
  | call op next ih =>
    obtain ⟨t, procs, rest⟩ := ih (handle op s).1 (handle op s).2
    exact ⟨t, procs, @Turns.turn Op Resp ε μ σ handle s t [] [] procs mode op next _ rest⟩

end Turns

/-! ## Histories -/

section History
variable {Entry : Type} {rule : List Entry → Entry → Prop} {log : List Entry}

def Follows (rule : List Entry → Entry → Prop) (log : List Entry) : Prop :=
  ∀ before entry after, log = before ++ entry :: after → rule before entry

theorem Follows.nil : Follows rule [] := by
  intro before entry after split
  exact absurd split (by simp)

theorem Follows.concat {entry : Entry} (first : Follows rule log) (last : rule log entry) :
    Follows rule (log ++ [entry]) := by
  intro before e after split
  rcases after.eq_nil_or_concat with rfl | ⟨front, final, rfl⟩
  · obtain ⟨rfl, rfl⟩ := List.append_inj' split rfl |>.imp_right (List.cons.inj · |>.1)
    exact last
  · rw [List.concat_eq_append, ← List.cons_append, ← List.append_assoc] at split
    exact first before e front (List.append_inj' split rfl).1

theorem Follows.of_mem {entry : Entry} (follows : Follows rule log) (mem : entry ∈ log) :
    ∃ before, before ⊆ log ∧ rule before entry := by
  obtain ⟨before, after, rfl⟩ := List.append_of_mem mem
  exact ⟨before, List.subset_append_left _ _, follows before entry after rfl⟩

theorem Follows.once {entry : Entry} (follows : Follows rule log) (mem : entry ∈ log)
    (fresh : ∀ before, rule before entry → entry ∉ before) :
    ∃ before after, log = before ++ entry :: after ∧ entry ∉ before ∧ entry ∉ after := by
  obtain ⟨before, after, rfl⟩ := List.append_of_mem mem
  refine ⟨before, after, rfl, fresh before (follows before entry after rfl), ?_⟩
  intro again
  obtain ⟨middle, last, rfl⟩ := List.append_of_mem again
  have late := follows (before ++ entry :: middle) entry last (by simp)
  exact fresh _ late (by simp)

end History

end Interleave
