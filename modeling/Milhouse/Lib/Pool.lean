import Milhouse.Lib.Interaction
import Milhouse.Lib.Transition
import Mathlib.Data.List.AList

/-!
# Pool — any number of processes on one store

A pool is a store with the processes that run on it. In one move a process starts, performs one
operation, returns or is killed, or every process dies at once; what a process may do to the store
is a `Handler`. The rule of parallel composition is

* **`Pool.step_moved`** — what one move can do;
* **`Pool.invariant`** — where every program is safe under a transitive rely that is its own
  guarantee, what the rely keeps holds of the store after every run.
-/

namespace Interaction

open Transition

variable {Γ : Signature} {σ χ ι : Type}

/-- A process: what it was started on, what is left of its program, and what it has done so far. -/
structure Proc (Γ : Signature) (ι : Type) where
  input : ι
  prog : Prog Γ Unit
  done : List (Performed Γ)

structure Pool (Γ : Signature) (σ ι : Type) where
  store : σ
  procs : AList fun _ : Nat => Proc Γ ι

inductive Pool.Move (ι χ : Type) where
  /-- A process starts on an input. -/
  | start (i : Nat) (x : ι)
  /-- A process performs its next operation. -/
  | run (i : Nat) (c : χ)
  /-- A process returned, or was killed. -/
  | stop (i : Nat)
  /-- Every process dies. -/
  | crash

namespace Pool

variable (H : Handler Γ σ χ) (prog : ι → Prog Γ Unit)

/-- A process performs its next operation. -/
def perform (w : Pool Γ σ ι) (i : Nat) (p : Proc Γ ι) (c : χ) : Option (Pool Γ σ ι) :=
  match p.prog with
  | .ret _ => none
  | .op o k => (H.perform w.store o c).map fun rs =>
      ⟨rs.2, w.procs.insert i ⟨p.input, k rs.1, p.done ++ [⟨o, rs.1⟩]⟩⟩

def step (w : Pool Γ σ ι) : Move ι χ → Option (Pool Γ σ ι)
  | .start i x =>
      if (w.procs.lookup i).isSome then none
      else some { w with procs := w.procs.insert i ⟨x, prog x, []⟩ }
  | .run i c => (w.procs.lookup i).bind fun p => w.perform H i p c
  | .stop i => some { w with procs := w.procs.erase i }
  | .crash => some { w with procs := ∅ }

/-- The pool that starts with no process. -/
def system (s₀ : σ) : System (Pool Γ σ ι) (Move ι χ) := .ofFun ⟨s₀, ∅⟩ (step H prog)

/-! ## What one move can do -/

/-- Every pool one move can lead to. -/
inductive Moved (w : Pool Γ σ ι) : Move ι χ → Pool Γ σ ι → Prop
  | start (i : Nat) (x : ι) (hfree : w.procs.lookup i = none) :
      Moved w (.start i x) { w with procs := w.procs.insert i ⟨x, prog x, []⟩ }
  | run (i : Nat) (c : χ) {p : Proc Γ ι} {o : Γ.Op} {k : Γ.Resp o → Prog Γ Unit} {r : Γ.Resp o}
      {s' : σ} (hlookup : w.procs.lookup i = some p) (hprog : p.prog = .op o k)
      (hperform : H.perform w.store o c = some (r, s')) :
      Moved w (.run i c) ⟨s', w.procs.insert i ⟨p.input, k r, p.done ++ [⟨o, r⟩]⟩⟩
  | stop (i : Nat) : Moved w (.stop i) { w with procs := w.procs.erase i }
  | crash : Moved w .crash { w with procs := ∅ }

section Rule

variable {H prog} {I : σ → Prop} {R : σ → σ → Prop} {w w' : Pool Γ σ ι}

/-- **The inversion of a move.** -/
theorem step_moved {m : Move ι χ} (h : w.step H prog m = some w') : Moved H prog w m w' := by
  cases m with
  | start i x =>
      simp only [step] at h
      split at h
      · cases h
      · rename_i hfree
        obtain rfl := Option.some.inj h
        exact .start i x (by simpa using hfree)
  | run i c =>
      obtain ⟨p, hlookup, h⟩ := Option.bind_eq_some_iff.mp h
      unfold perform at h
      split at h
      · cases h
      · rename_i o k hprog
        obtain ⟨⟨r, s'⟩, hperform, rfl⟩ := Option.map_eq_some_iff.mp h
        exact .run i c hlookup hprog hperform
  | stop i =>
      obtain rfl := Option.some.inj h
      exact .stop i
  | crash =>
      obtain rfl := Option.some.inj h
      exact .crash

/-- What is looked up in a pool after a process changed. -/
theorem lookup_insert_cases {i j : Nat} {p q : Proc Γ ι}
    (h : (w.procs.insert i p).lookup j = some q) : (j = i ∧ q = p) ∨ w.procs.lookup j = some q := by
  by_cases hj : j = i
  · subst hj
    rw [AList.lookup_insert] at h
    exact Or.inl ⟨rfl, (Option.some.inj h).symm⟩
  · rw [AList.lookup_insert_ne hj] at h
    exact Or.inr h

theorem lookup_erase_some {i j : Nat} {q : Proc Γ ι} (h : (w.procs.erase i).lookup j = some q) :
    w.procs.lookup j = some q := by
  by_cases hj : j = i
  · subst hj
    simp at h
  · rwa [AList.lookup_erase_ne hj] at h

/-- The store satisfies the invariant and every process is safe there. -/
structure Safe (H : Handler Γ σ χ) (I : σ → Prop) (R : σ → σ → Prop) (w : Pool Γ σ ι) : Prop where
  store : I w.store
  procs : ∀ i p, w.procs.lookup i = some p → p.prog.Safe H R R (fun _ _ => True) w.store

theorem Safe.insert (h : w.Safe H I R) (htrans : ∀ a b c, R a b → R b c → R a c) {i : Nat}
    {p : Proc Γ ι} {s' : σ} (hstore : I s') (hR : R w.store s')
    (hp : p.prog.Safe H R R (fun _ _ => True) s') : Safe H I R ⟨s', w.procs.insert i p⟩ := by
  refine ⟨hstore, fun j q hq => ?_⟩
  rcases lookup_insert_cases hq with ⟨-, rfl⟩ | hq
  · exact hp
  · exact (h.procs j q hq).stable htrans (fun _ _ _ _ _ => trivial) hR

theorem Safe.step (h : Safe H I R w) (hI : ∀ s s', R s s' → I s') (hrefl : ∀ s, I s → R s s)
    (htrans : ∀ a b c, R a b → R b c → R a c)
    (hprog : ∀ x s, I s → (prog x).Safe H R R (fun _ _ => True) s) {m : Move ι χ}
    (hstep : w.step H prog m = some w') : w'.Safe H I R := by
  cases step_moved hstep with
  | start i x hfree => exact h.insert htrans h.store (hrefl _ h.store) (hprog x _ h.store)
  | run i c hlookup hcode hperform =>
      have hsafe := h.procs i _ hlookup
      rw [hcode] at hsafe
      obtain ⟨hR, hk⟩ := hsafe w.store (hrefl _ h.store) c _ _ hperform
      exact h.insert htrans (hI _ _ hR) hR hk
  | stop i => exact ⟨h.store, fun j q hq => h.procs j q (lookup_erase_some hq)⟩
  | crash => exact ⟨h.store, fun j q hq => by simp at hq⟩

/-- **The rule of parallel composition.** -/
theorem invariant (hI : ∀ s s', R s s' → I s') (hrefl : ∀ s, I s → R s s)
    (htrans : ∀ a b c, R a b → R b c → R a c)
    (hprog : ∀ x s, I s → (prog x).Safe H R R (fun _ _ => True) s) {s₀ : σ} (h₀ : I s₀)
    {tr : List (Move ι χ)} (hrun : Run (system H prog s₀) tr w) : I w.store := by
  refine (hrun.invariant (I := Safe H I R) ?_ fun w m w' h hstep => ?_).store
  · rintro w rfl
    exact ⟨h₀, fun i p hp => by simp at hp⟩
  · exact h.step hI hrefl htrans hprog hstep

end Rule

end Pool

end Interaction
