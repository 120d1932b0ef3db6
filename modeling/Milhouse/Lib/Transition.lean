import Mathlib.Logic.Relation

/-!
# Transition — labelled transition systems, their runs and invariants

A `System` is a predicate on initial states and a labelled step relation. A `Run` carries the
labels taken so far, oldest first, so that a statement can speak of the history of a run as well
as of the state it reached. The two induction rules every safety proof of this development goes
through are

* **`Run.invariant`** — what holds initially and is kept by every step holds after every run;
* **`Run.history`** — the same for a property of the history *and* the state.

`System.guard` restricts a system to the steps that meet a condition on the state before them:
**`Run.guarded`** is its invariant rule, and `Run.guard_of_exec` finds its runs where a function that
is undefined off the condition takes every step.
-/

namespace Transition

/-- A labelled transition system. -/
structure System (σ ℓ : Type*) where
  init : σ → Prop
  step : σ → ℓ → σ → Prop

variable {σ ℓ : Type*} {S : System σ ℓ}

/-- A finite run: the labels taken, oldest first, and the state they lead to. -/
inductive Run (S : System σ ℓ) : List ℓ → σ → Prop
  | start {s : σ} (hinit : S.init s) : Run S [] s
  | snoc {tr : List ℓ} {s s' : σ} {l : ℓ} (hrun : Run S tr s) (hstep : S.step s l s') :
      Run S (tr ++ [l]) s'

/-- A property of the history and the state that holds at the start and is kept by every step
holds of every run. -/
theorem Run.history {P : List ℓ → σ → Prop} (hinit : ∀ s, S.init s → P [] s)
    (hstep : ∀ tr s l s', Run S tr s → P tr s → S.step s l s' → P (tr ++ [l]) s')
    {tr : List ℓ} {s : σ} (hrun : Run S tr s) : P tr s := by
  induction hrun with
  | start h => exact hinit _ h
  | snoc hrun h ih => exact hstep _ _ _ _ hrun ih h

/-- A property of states that holds initially and is kept by every step holds after every run. -/
theorem Run.invariant {I : σ → Prop} (hinit : ∀ s, S.init s → I s)
    (hstep : ∀ s l s', I s → S.step s l s' → I s')
    {tr : List ℓ} {s : σ} (hrun : Run S tr s) : I s :=
  hrun.history (P := fun _ s => I s) hinit fun _ _ _ _ _ hI h => hstep _ _ _ hI h

/-! ## Conditions on the steps of a run -/

/-- The system that takes only the steps meeting `G`, a condition on the state before the step
and the label. -/
def System.guard (S : System σ ℓ) (G : σ → ℓ → Prop) : System σ ℓ where
  init := S.init
  step s l s' := G s l ∧ S.step s l s'

/-- What every unguarded step keeps, a guarded run keeps; the step lemma may use the guard. -/
theorem Run.guarded {G : σ → ℓ → Prop} {I : σ → Prop} (hinit : ∀ s, S.init s → I s)
    (hstep : ∀ s l s', I s → G s l → S.step s l s' → I s')
    {tr : List ℓ} {s : σ} (hrun : Run (S.guard G) tr s) : I s :=
  hrun.invariant (S := S.guard G) hinit fun s l s' hI (h : G s l ∧ S.step s l s') =>
    hstep s l s' hI h.1 h.2

/-! ## Deterministic systems

A system given by an initial state and a total or partial step function; its runs are the folds of
the function over their labels, which is how a concrete run is computed. -/

/-- The system of a partial step function. -/
def System.ofFun (s₀ : σ) (f : σ → ℓ → Option σ) : System σ ℓ where
  init s := s = s₀
  step s l s' := f s l = some s'

/-- Fold a partial step function over a list of labels. -/
def exec (f : σ → ℓ → Option σ) : σ → List ℓ → Option σ
  | s, [] => some s
  | s, l :: ls => (f s l).bind fun s' => exec f s' ls

@[simp] theorem exec_nil (f : σ → ℓ → Option σ) (s : σ) : exec f s [] = some s := rfl

@[simp] theorem exec_cons (f : σ → ℓ → Option σ) (s : σ) (l : ℓ) (ls : List ℓ) :
    exec f s (l :: ls) = (f s l).bind fun s' => exec f s' ls := rfl

/-- Executing from a state a run reached continues the run. -/
theorem Run.exec {s₀ : σ} {f : σ → ℓ → Option σ} {tr ls : List ℓ} {s s' : σ}
    (hrun : Run (.ofFun s₀ f) tr s) (hexec : exec f s ls = some s') :
    Run (.ofFun s₀ f) (tr ++ ls) s' := by
  induction ls generalizing tr s with
  | nil => simpa using (by simpa using hexec : s = s') ▸ hrun
  | cons l ls ih =>
      obtain ⟨t, hstep, hrest⟩ := Option.bind_eq_some_iff.mp hexec
      simpa using ih (hrun.snoc (l := l) hstep) hrest

/-- **Runs of a deterministic system are its executions.** -/
theorem run_ofFun_iff {s₀ : σ} {f : σ → ℓ → Option σ} {tr : List ℓ} {s : σ} :
    Run (.ofFun s₀ f) tr s ↔ Transition.exec f s₀ tr = some s := by
  constructor
  · intro hrun
    induction hrun with
    | start h => exact congrArg some h.symm
    | @snoc tr s s' l _ hstep ih =>
        have happend : ∀ (ls : List ℓ) (a : σ),
            Transition.exec f a (ls ++ [l]) = (Transition.exec f a ls).bind (f · l) := by
          intro ls
          induction ls with
          | nil => intro a; simp
          | cons x xs ih =>
              intro a
              simp only [List.cons_append, exec_cons, ih]
              cases f a x <;> simp
        rw [happend, ih]
        exact hstep
  · intro hexec
    simpa using (Run.start (S := .ofFun s₀ f) rfl).exec hexec

/-- A property every step keeps is kept by an execution. -/
theorem exec_keeps {f : σ → ℓ → Option σ} {I : σ → Prop}
    (hstep : ∀ s l s', I s → f s l = some s' → I s') {ls : List ℓ} {s s' : σ} (hs : I s)
    (hexec : Transition.exec f s ls = some s') : I s' := by
  induction ls generalizing s with
  | nil => exact Option.some.inj hexec ▸ hs
  | cons l ls ih =>
      obtain ⟨t, hl, hrest⟩ := Option.bind_eq_some_iff.mp hexec
      exact ih (hstep s l t hs hl) hrest

/-- A run that is computed, with what is checked of the state it reaches. -/
theorem exists_run_of_exec {s₀ : σ} {f : σ → ℓ → Option σ} {tr : List ℓ} {P : σ → Prop}
    [DecidablePred P] (h : (Transition.exec f s₀ tr).any (fun s => decide (P s)) = true) :
    ∃ s, Run (.ofFun s₀ f) tr s ∧ P s := by
  obtain ⟨s, hexec, hP⟩ := (Option.any_eq_true _ _).mp h
  exact ⟨s, run_ofFun_iff.mpr hexec, by simpa using hP⟩

/-- A run of the function that is undefined where the condition fails is a run of the guarded
system. -/
theorem Run.guard_of_exec {s₀ : σ} {f : σ → ℓ → Option σ} {G : σ → ℓ → Prop}
    [∀ s l, Decidable (G s l)] {tr : List ℓ} {s : σ}
    (hrun : Run (.ofFun s₀ fun s l => if G s l then f s l else none) tr s) :
    Run ((System.ofFun s₀ f).guard G) tr s := by
  induction hrun with
  | start h => exact .start h
  | @snoc tr s s' l _ hstep ih =>
      have hstep : (if G s l then f s l else none) = some s' := hstep
      split at hstep
      · rename_i hG
        exact ih.snoc ⟨hG, hstep⟩
      · cases hstep

end Transition
