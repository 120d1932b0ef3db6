import Milhouse.Lib.Interaction
import Mathlib.Logic.Relation

/-!
# Refinement — programs that track an abstract system

An abstract system has states `μ` and steps `T`; `Rel m s` says that `m` describes the concrete
state `s`. A program *tracks* the system from `m` when every operation it performs, whatever the
environment chooses, is matched by one abstract step, and it returns only where its postcondition
holds of the abstract and the concrete state. Because each operation is matched on its own, an
interrupted program has been matched as far as it got.

* **`Prog.Tracks.play`** — after every tape some abstract run describes the state reached;
* `Prog.andThen` — sequencing of fallible programs, with its rule `Prog.Tracks.andThen`;
* `Prog.eval` — the run in an environment that never fails; `exists_play_eval` finds its tape.
-/

namespace Interaction

open Relation

variable {Γ : Signature} {σ χ μ α β ε : Type}

/-- The program is matched step by step by the abstract system. -/
def Prog.Tracks (H : Handler Γ σ χ) (T : μ → μ → Prop) (Rel : μ → σ → Prop) :
    Prog Γ α → (α → μ → σ → Prop) → μ → σ → Prop
  | .ret a, Q, m, s => Q a m s
  | .op o k, Q, m, s => ∀ c r s', H.perform s o c = some (r, s') →
      ∃ m', T m m' ∧ Rel m' s' ∧ (k r).Tracks H T Rel Q m' s'

/-- Run the second program on the value of the first; an error is the value of the whole. -/
def Prog.andThen (p : Prog Γ (Except ε α)) (f : α → Prog Γ (Except ε β)) : Prog Γ (Except ε β) :=
  p >>= fun
    | .ok a => f a
    | .error e => .ret (.error e)

theorem Prog.Only.andThen {P : Γ.Op → Prop} {p : Prog Γ (Except ε α)}
    {f : α → Prog Γ (Except ε β)} (h : p.Only P) (hf : ∀ a, (f a).Only P) :
    (p.andThen f).Only P := by
  refine h.bind fun r => ?_
  cases r with
  | error e => trivial
  | ok a => exact hf a

section Rules

variable {H : Handler Γ σ χ} {T T' : μ → μ → Prop} {Rel : μ → σ → Prop}
  {Q M : α → μ → σ → Prop} {m : μ} {s : σ}

theorem Prog.Tracks.ret {a : α} (h : Q a m s) : (Prog.ret a : Prog Γ α).Tracks H T Rel Q m s := h

/-- The rule of consequence. -/
theorem Prog.Tracks.mono {p : Prog Γ α} (h : p.Tracks H T Rel Q m s)
    (hT : ∀ a b, T a b → T' a b) (hQ : ∀ a m s, Q a m s → M a m s) : p.Tracks H T' Rel M m s := by
  induction p generalizing m s with
  | ret a => exact hQ a m s h
  | op o k ih =>
      intro c r s' hstep
      obtain ⟨m', hstep', hrel, hk⟩ := h c r s' hstep
      exact ⟨m', hT m m' hstep', hrel, ih r hk⟩

/-- The rule of sequential composition. -/
theorem Prog.Tracks.seq {p : Prog Γ α} {f : α → Prog Γ β} {Q : β → μ → σ → Prop}
    (h : p.Tracks H T Rel M m s) (hrel : Rel m s)
    (hf : ∀ a m s, Rel m s → M a m s → (f a).Tracks H T Rel Q m s) :
    (p >>= f).Tracks H T Rel Q m s := by
  induction p generalizing m s with
  | ret a => exact hf a m s hrel h
  | op o k ih =>
      intro c r s' hstep
      obtain ⟨m', hstep', hrel', hk⟩ := h c r s' hstep
      exact ⟨m', hstep', hrel', ih r hk hrel'⟩

/-- The rule of sequencing: an error of the first part must meet the postcondition. -/
theorem Prog.Tracks.andThen {p : Prog Γ (Except ε α)} {f : α → Prog Γ (Except ε β)}
    {M : Except ε α → μ → σ → Prop} {Q : Except ε β → μ → σ → Prop}
    (h : p.Tracks H T Rel M m s) (hrel : Rel m s)
    (herror : ∀ e m s, Rel m s → M (.error e) m s → Q (.error e) m s)
    (hf : ∀ a m s, Rel m s → M (.ok a) m s → (f a).Tracks H T Rel Q m s) :
    (p.andThen f).Tracks H T Rel Q m s := by
  refine h.seq hrel fun r m s hrel' hM => ?_
  cases r with
  | error e => exact herror e m s hrel' hM
  | ok a => exact hf a m s hrel' hM

/-- What every abstract step keeps may be carried along. -/
theorem Prog.Tracks.frame {F : μ → Prop} {p : Prog Γ α} (h : p.Tracks H T Rel Q m s)
    (hF : ∀ a b, F a → T a b → F b) (hm : F m) :
    p.Tracks H T Rel (fun a m s => Q a m s ∧ F m) m s := by
  induction p generalizing m s with
  | ret a => exact ⟨h, hm⟩
  | op o k ih =>
      intro c r s' hstep
      obtain ⟨m', hstep', hrel, hk⟩ := h c r s' hstep
      exact ⟨m', hstep', hrel, ih r hk (hF m m' hm hstep')⟩

/-- **After every tape some abstract run describes the state reached**; a program that finished
did so in its postcondition. -/
theorem Prog.Tracks.play {p p' : Prog Γ α} {s' : σ} {tape : List χ} (h : p.Tracks H T Rel Q m s)
    (hrel : Rel m s) (hplay : p.play H s tape = some (p', s')) :
    ∃ m', ReflTransGen T m m' ∧ Rel m' s' ∧ ∀ a, p'.value? = some a → Q a m' s' := by
  induction p generalizing m s tape with
  | ret a =>
      obtain ⟨rfl, rfl⟩ : .ret a = p' ∧ s = s' := by simpa [Prog.play] using hplay
      exact ⟨m, .refl, hrel, fun b hb => Option.some.inj hb ▸ h⟩
  | op o k ih =>
      cases tape with
      | nil =>
          obtain ⟨rfl, rfl⟩ : .op o k = p' ∧ s = s' := by simpa [Prog.play] using hplay
          exact ⟨m, .refl, hrel, fun b hb => by cases hb⟩
      | cons c tape =>
          obtain ⟨⟨r, t⟩, hstep, hrest⟩ := Option.bind_eq_some_iff.mp hplay
          obtain ⟨m₁, hstep₁, hrel₁, hk⟩ := h c r t hstep
          obtain ⟨m', hrun, hrel', hQ⟩ := ih r hk hrel₁ hrest
          exact ⟨m', .head hstep₁ hrun, hrel', hQ⟩

end Rules

/-! ## Runs in which nothing fails -/

/-- The run of a program in an environment that answers every operation by `answer`. -/
def Prog.eval (answer : σ → (o : Γ.Op) → Γ.Resp o × σ) : Prog Γ α → σ → α × σ
  | .ret a, s => (a, s)
  | .op o k, s => (k (answer s o).1).eval answer (answer s o).2

section Eval

variable {answer : σ → (o : Γ.Op) → Γ.Resp o × σ} {s t : σ}

@[simp] theorem Prog.eval_ret (a : α) : (Prog.ret a : Prog Γ α).eval answer s = (a, s) := rfl

theorem Prog.eval_bind (p : Prog Γ α) (f : α → Prog Γ β) :
    (p >>= f).eval answer s = (f (p.eval answer s).1).eval answer (p.eval answer s).2 := by
  induction p generalizing s with
  | ret a => rfl
  | op o k ih => exact ih _

theorem Prog.eval_andThen_ok {p : Prog Γ (Except ε α)} {f : α → Prog Γ (Except ε β)} {a : α}
    (h : p.eval answer s = (.ok a, t)) : (p.andThen f).eval answer s = (f a).eval answer t := by
  rw [Prog.andThen, Prog.eval_bind, h]

theorem Prog.eval_andThen_error {p : Prog Γ (Except ε α)} {f : α → Prog Γ (Except ε β)} {e : ε}
    (h : p.eval answer s = (.error e, t)) :
    (p.andThen f).eval answer s = (.error e, t) := by
  rw [Prog.andThen, Prog.eval_bind, h]
  rfl

/-- The run in which nothing fails is the play of a tape that never does. -/
theorem Prog.exists_play_eval {H : Handler Γ σ χ} {c : χ}
    (h : ∀ s o, H.perform s o c = some (answer s o)) (p : Prog Γ α) (s : σ) :
    ∃ n, p.play H s (List.replicate n c) = some (.ret (p.eval answer s).1, (p.eval answer s).2) := by
  induction p generalizing s with
  | ret a => exact ⟨0, rfl⟩
  | op o k ih =>
      obtain ⟨n, hn⟩ := ih (answer s o).1 (answer s o).2
      refine ⟨n + 1, ?_⟩
      rw [List.replicate_succ, Prog.play, h]
      exact hn

end Eval

end Interaction
