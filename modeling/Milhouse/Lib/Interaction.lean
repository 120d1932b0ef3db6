import Mathlib.Logic.Basic

/-!
# Interaction — programs over an interface, and what holds at every point of them

A program is a tree of operations of a `Signature`: it performs an operation, receives a response
and goes on. A `Handler` says what an operation may do to a state; the environment's choices (which
call fails, how) are an explicit parameter, so a handler is a function and a run is computed.

* `Prog.play` plays a program against a tape of choices; where the tape ends the program is cut,
  so the residual program tells a finished run from an interrupted one;
* `Prog.Safe` is safety of a program that may be cut anywhere and disturbed anywhere: between its
  operations others may move the state along a rely `R`, every single operation keeps a guarantee
  `G`, and the program returns only where its postcondition holds;
* `Prog.Only` and `Prog.After` say which operations a program can perform, and in which order;
* `Signature.sum` and `Prog.inl` put a program over one interface among the operations of two;
* `Prog.Ends` says what a program has done when it returns, where every response is a given one;
* `Prog.Keeps` is safety relative to a `Promise`, a state property with a way to end;
* **`Prog.Safe.play`** — what `Safe` promises holds after every tape.
-/

namespace Interaction

/-- Operations, each with the type of its responses. -/
structure Signature where
  Op : Type
  Resp : Op → Type

variable {Γ : Signature} {σ χ α β : Type}

/-- A program: return a value, or perform an operation and continue with its response. -/
inductive Prog (Γ : Signature) (α : Type) : Type
  | ret (value : α)
  | op (o : Γ.Op) (k : Γ.Resp o → Prog Γ α)

namespace Prog

/-- Sequential composition. -/
def bind : Prog Γ α → (α → Prog Γ β) → Prog Γ β
  | .ret a, f => f a
  | .op o k, f => .op o fun r => (k r).bind f

instance : Monad (Prog Γ) where
  pure := .ret
  bind := .bind

/-- Perform one operation. -/
def call (o : Γ.Op) : Prog Γ (Γ.Resp o) := .op o .ret

/-- Run `body` on each element in order, threading an accumulator; `Except.error` stops early. -/
def foldUntil (xs : List α) (acc : β) (body : β → α → Prog Γ (Bool × β)) : Prog Γ β :=
  match xs with
  | [] => .ret acc
  | x :: rest => (body acc x).bind fun r => if r.1 then foldUntil rest r.2 body else .ret r.2

end Prog

/-- What an operation does to a state under a choice of the environment; `none` where the choice
is not one the operation has in that state. -/
structure Handler (Γ : Signature) (σ χ : Type) where
  perform : σ → (o : Γ.Op) → χ → Option (Γ.Resp o × σ)

variable (H : Handler Γ σ χ)

namespace Prog

/-- Play a program against a tape of choices. A program that returns ignores the rest of the
tape; one that still has operations when the tape ends is cut there. -/
def play : Prog Γ α → σ → List χ → Option (Prog Γ α × σ)
  | .ret a, s, _ => some (.ret a, s)
  | .op o k, s, [] => some (.op o k, s)
  | .op o k, s, c :: tape => (H.perform s o c).bind fun rs => (k rs.1).play rs.2 tape

/-- The value a finished program returned. -/
def value? : Prog Γ α → Option α
  | .ret a => some a
  | .op _ _ => none

/-- Run a program to its end, where `serve` answers its operations. -/
def run (serve : σ → (o : Γ.Op) → Option (Γ.Resp o × σ)) : Prog Γ α → σ → Option (α × σ)
  | .ret a, s => some (a, s)
  | .op o k, s => (serve s o).bind fun r => (k r.1).run serve r.2

/-- The program is safe under interference: before each of its operations the state may have moved
along the rely `R`; every operation then keeps the guarantee `G`, whatever the environment
chooses, and the program returns only values and states of `Q`. -/
def Safe (R G : σ → σ → Prop) : Prog Γ α → (α → σ → Prop) → σ → Prop
  | .ret a, Q, s => Q a s
  | .op o k, Q, s => ∀ s₁, R s s₁ → ∀ c r s', H.perform s₁ o c = some (r, s') →
      G s₁ s' ∧ (k r).Safe R G Q s'

end Prog

/-! ## Programs as trees -/

section Trees

variable {p : Prog Γ α} {o : Γ.Op}

@[simp] theorem Prog.pure_eq (a : α) : (pure a : Prog Γ α) = .ret a := rfl

@[simp] theorem Prog.ret_bind (a : α) (f : α → Prog Γ β) : (Prog.ret a >>= f) = f a := rfl

@[simp] theorem Prog.call_bind (f : Γ.Resp o → Prog Γ β) : (Prog.call o >>= f) = .op o f := rfl

@[simp] theorem Prog.op_bind (k : Γ.Resp o → Prog Γ α) (f : α → Prog Γ β) :
    (Prog.op o k >>= f) = .op o fun r => k r >>= f := rfl

/-- Sequential composition is associative. -/
theorem Prog.bind_assoc {δ : Type} (p : Prog Γ α) (f : α → Prog Γ β) (g : β → Prog Γ δ) :
    ((p >>= f) >>= g) = p >>= fun x => f x >>= g := by
  induction p with
  | ret a => rfl
  | op o k ih => exact congrArg (Prog.op o) (funext fun r => ih r)

/-- A program run in two parts. -/
theorem Prog.run_bind {serve : σ → (o : Γ.Op) → Option (Γ.Resp o × σ)} (p : Prog Γ α)
    (f : α → Prog Γ β) (s : σ) :
    (p >>= f).run serve s = (p.run serve s).bind fun r => (f r.1).run serve r.2 := by
  induction p generalizing s with
  | ret a => rfl
  | op o k ih =>
      show ((serve s o).bind fun r => (k r.1 >>= f).run serve r.2) = _
      rw [Prog.run, Option.bind_assoc]
      congr 1
      exact funext fun r => ih r.1 r.2

/-- A program that performs one operation first. -/
theorem Prog.run_op {serve : σ → (o : Γ.Op) → Option (Γ.Resp o × σ)} {k : Γ.Resp o → Prog Γ α}
    {s s' : σ} {r : Γ.Resp o} (h : serve s o = some (r, s')) :
    (Prog.op o k).run serve s = (k r).run serve s' := by
  rw [Prog.run, h, Option.bind_some]

/-- Every operation the program can ever perform satisfies `P`. -/
def Prog.Only (P : Γ.Op → Prop) : Prog Γ α → Prop
  | .ret _ => True
  | .op o k => P o ∧ ∀ r, (k r).Only P

variable {P P' : Γ.Op → Prop}

@[simp] theorem Prog.only_ret (a : α) : (Prog.ret a : Prog Γ α).Only P := trivial

@[simp] theorem Prog.only_op {k : Γ.Resp o → Prog Γ α} :
    (Prog.op o k).Only P ↔ P o ∧ ∀ r, (k r).Only P := Iff.rfl

@[simp] theorem Prog.only_call : (Prog.call o : Prog Γ (Γ.Resp o)).Only P ↔ P o := by
  simp [Prog.call]

/-- A sequence performs only what its parts perform. -/
theorem Prog.Only.bind {f : α → Prog Γ β} (h : p.Only P) (hf : ∀ a, (f a).Only P) :
    (p >>= f).Only P := by
  induction p with
  | ret a => exact hf a
  | op o k ih => exact ⟨h.1, fun r => ih r (h.2 r)⟩

theorem Prog.Only.call {f : Γ.Resp o → Prog Γ β} (ho : P o) (hf : ∀ r, (f r).Only P) :
    (Prog.call o >>= f).Only P := ⟨ho, hf⟩

/-- The operations a program may perform may be described more loosely. -/
theorem Prog.Only.mono (h : p.Only P) (hPP : ∀ o, P o → P' o) : p.Only P' := by
  induction p with
  | ret a => trivial
  | op o k ih => exact ⟨hPP o h.1, fun r => ih r (h.2 r)⟩

theorem Prog.Only.true : p.Only fun _ => True := by
  induction p with
  | ret a => trivial
  | op o k ih => exact ⟨trivial, fun r => ih r⟩

/-- A loop performs only what its body performs on the elements. -/
theorem Prog.Only.foldUntil {xs : List α} {acc : β} {body : β → α → Prog Γ (Bool × β)}
    (hbody : ∀ x ∈ xs, ∀ b, (body b x).Only P) : (Prog.foldUntil xs acc body).Only P := by
  induction xs generalizing acc with
  | nil => trivial
  | cons x rest ih =>
      refine Prog.Only.bind (hbody x (by simp) acc) fun r => ?_
      split
      · exact ih fun y hy => hbody y (List.mem_cons_of_mem _ hy)
      · trivial

/-- Two handlers that agree on the operations of a program play it alike. -/
theorem Prog.Only.play_eq {H K : Handler Γ σ χ} (hp : p.Only P)
    (h : ∀ s o c, P o → H.perform s o c = K.perform s o c) (s : σ) (tape : List χ) :
    p.play H s tape = p.play K s tape := by
  induction p generalizing s tape with
  | ret a => rfl
  | op o k ih =>
      cases tape with
      | nil => rfl
      | cons c tape =>
          rw [Prog.play, Prog.play, h s o c hp.1]
          exact congrArg _ (funext fun r => ih r.1 (hp.2 r.1) r.2 tape)

/-- Every value the program can ever return satisfies `φ`. -/
def Prog.Yields (φ : α → Prop) : Prog Γ α → Prop
  | .ret a => φ a
  | .op _ k => ∀ r, (k r).Yields φ

/-- What a sequence yields follows from what its first part yields. -/
theorem Prog.Yields.bind {φ : α → Prop} {ψ : β → Prop} {f : α → Prog Γ β} (h : p.Yields φ)
    (hf : ∀ a, φ a → (f a).Yields ψ) : (p >>= f).Yields ψ := by
  induction p with
  | ret a => exact hf a h
  | op o k ih => exact fun r => ih r (h r)

theorem Prog.Yields.of_call {ψ : β → Prop} {f : Γ.Resp o → Prog Γ β} (hf : ∀ r, (f r).Yields ψ) :
    (Prog.call o >>= f).Yields ψ := hf

theorem Prog.Yields.true : p.Yields fun _ => True := by
  induction p with
  | ret a => trivial
  | op o k ih => exact fun r => ih r

/-- An invariant of the accumulator that the body keeps holds of what a loop yields. -/
theorem Prog.Yields.foldUntil {xs : List α} {acc : β} {body : β → α → Prog Γ (Bool × β)}
    {I : β → Prop} (hacc : I acc)
    (hbody : ∀ x ∈ xs, ∀ b, I b → (body b x).Yields fun r => I r.2) :
    (Prog.foldUntil xs acc body).Yields I := by
  induction xs generalizing acc with
  | nil => exact hacc
  | cons x rest ih =>
      refine Prog.Yields.bind (hbody x (by simp) acc hacc) fun r hr => ?_
      split
      · exact ih hr fun y hy => hbody y (List.mem_cons_of_mem _ hy)
      · exact hr

/-- After an operation of `P` the program performs only operations of `P'`. -/
def Prog.After (P P' : Γ.Op → Prop) : Prog Γ α → Prop
  | .ret _ => True
  | .op o k => (P o → ∀ r, (k r).Only P') ∧ ∀ r, (k r).After P P'

/-- A program without operations of `P` has nothing to say of what comes after them. -/
theorem Prog.Only.after (h : p.Only fun o => ¬ P o) : p.After P P' := by
  induction p with
  | ret a => trivial
  | op o k ih => exact ⟨fun ho => absurd ho h.1, fun r => ih r (h.2 r)⟩

/-- A first part without the awaited operation does not decide what comes after it. -/
theorem Prog.After.bind {f : α → Prog Γ β} (h : p.Only fun o => ¬ P o)
    (hf : ∀ a, (f a).After P P') : (p >>= f).After P P' := by
  induction p with
  | ret a => exact hf a
  | op o k ih => exact ⟨fun ho => absurd ho h.1, fun r => ih r (h.2 r)⟩

/-- Dropping the value performs nothing more. -/
theorem Prog.After.map {f : α → β} (h : p.After P P') :
    (p >>= fun a => (pure (f a) : Prog Γ β)).After P P' := by
  induction p with
  | ret a => trivial
  | op o k ih => exact ⟨fun ho r => (h.1 ho r).bind fun _ => trivial, fun r => ih r (h.2 r)⟩

theorem Prog.After.call {f : Γ.Resp o → Prog Γ β} (ho : ¬ P o) (hf : ∀ r, (f r).After P P') :
    (Prog.call o >>= f).After P P' := ⟨fun h => absurd h ho, hf⟩

end Trees

/-! ## Two interfaces at once -/

/-- The operations of both signatures. -/
def Signature.sum (Γ Δ : Signature) : Signature := ⟨Γ.Op ⊕ Δ.Op, Sum.elim Γ.Resp Δ.Resp⟩

/-- Each interface acts on a state of its own, at choices of its own. -/
def Handler.sum {Δ : Signature} {τ ξ : Type} (H : Handler Γ σ χ) (K : Handler Δ τ ξ) :
    Handler (Γ.sum Δ) (σ × τ) (χ ⊕ ξ) where
  perform
    | s, .inl o, .inl c => (H.perform s.1 o c).map fun r => (r.1, (r.2, s.2))
    | s, .inr o, .inr c => (K.perform s.2 o c).map fun r => (r.1, (s.1, r.2))
    | _, _, _ => none

section Sum

variable {Δ : Signature}

/-- A program over the first of two interfaces. -/
def Prog.inl : Prog Γ α → Prog (Γ.sum Δ) α
  | .ret a => .ret a
  | .op o k => .op (Sum.inl o) fun r => (k r).inl

/-- Perform one operation of the second interface. -/
def Prog.callRight (o : Δ.Op) : Prog (Γ.sum Δ) (Δ.Resp o) := .op (Sum.inr o) .ret

/-- Among the operations of two interfaces a program performs those of its own. -/
theorem Prog.Only.inl {P : (Γ.sum Δ).Op → Prop} {p : Prog Γ α}
    (h : p.Only fun o => P (Sum.inl o)) : (p.inl : Prog (Γ.sum Δ) α).Only P := by
  induction p with
  | ret a => trivial
  | op o k ih => exact ⟨h.1, fun r => ih r (h.2 r)⟩

theorem Prog.Yields.inl {φ : α → Prop} {p : Prog Γ α} (h : p.Yields φ) :
    (p.inl : Prog (Γ.sum Δ) α).Yields φ := by
  induction p with
  | ret a => exact h
  | op o k ih => exact fun r => ih r (h r)

end Sum

/-! ## What a program has done -/

/-- An operation with the response it got. -/
abbrev Performed (Γ : Signature) := (o : Γ.Op) × Γ.Resp o

/-- After the operations `done`, a program all of whose responses are `ok` returns only where `Q`
holds of its value and of all it has done. -/
def Prog.Ends (ok : (o : Γ.Op) → Γ.Resp o → Prop) (Q : α → List (Performed Γ) → Prop) :
    Prog Γ α → List (Performed Γ) → Prop
  | .ret a, done => Q a done
  | .op o k, done => ∀ r, ok o r → (k r).Ends ok Q (done ++ [⟨o, r⟩])

section Ends

variable {ok : (o : Γ.Op) → Γ.Resp o → Prop} {Q M : α → List (Performed Γ) → Prop}
  {done : List (Performed Γ)}

theorem Prog.Ends.mono {p : Prog Γ α} (h : p.Ends ok Q done) (hQ : ∀ a tr, Q a tr → M a tr) :
    p.Ends ok M done := by
  induction p generalizing done with
  | ret a => exact hQ a done h
  | op o k ih => exact fun r hr => ih r (h r hr)

/-- The trace of a sequence is that of its first part followed by that of the second. -/
theorem Prog.Ends.seq {p : Prog Γ α} {f : α → Prog Γ β} {Q : β → List (Performed Γ) → Prop}
    (h : p.Ends ok M done) (hf : ∀ a tr, M a tr → (f a).Ends ok Q tr) : (p >>= f).Ends ok Q done := by
  induction p generalizing done with
  | ret a => exact hf a done h
  | op o k ih => exact fun r hr => ih r (h r hr)

/-- Where every turn goes on, the invariant may speak of the elements done so far. -/
theorem Prog.Ends.foldUntil {xs : List α} {acc : β} {body : β → α → Prog Γ (Bool × β)}
    {I : List α → β → List (Performed Γ) → Prop}
    (hbody : ∀ before x after, xs = before ++ x :: after → ∀ b tr, I before b tr →
      (body b x).Ends ok (fun r tr => r.1 = true ∧ I (before ++ [x]) r.2 tr) tr)
    (hI : I [] acc done) : (Prog.foldUntil xs acc body).Ends ok (I xs) done := by
  have hrest : ∀ rest before acc done, xs = before ++ rest → I before acc done →
      (Prog.foldUntil rest acc body).Ends ok (I xs) done := by
    intro rest
    induction rest with
    | nil =>
        intro before acc done hxs hbefore
        rw [List.append_nil] at hxs
        rw [hxs]
        exact hbefore
    | cons x after ih =>
        intro before acc done hxs hbefore
        have hx := hbody before x after hxs acc done hbefore
        refine hx.seq fun r tr hr => ?_
        rw [if_pos hr.1]
        exact ih (before ++ [x]) r.2 tr (by simp [hxs]) hr.2
  exact hrest xs [] acc done rfl hI

/-- What a program has done only grows. -/
theorem Prog.Ends.extends {p : Prog Γ α} (h : p.Ends ok Q done) :
    p.Ends ok (fun a tr => done <+: tr ∧ Q a tr) done := by
  induction p generalizing done with
  | ret a => exact ⟨List.prefix_rfl, h⟩
  | op o k ih =>
      intro r hr
      exact (ih r (h r hr)).mono fun a tr htr => ⟨(List.prefix_append _ _).trans htr.1, htr.2⟩

end Ends

/-! ## The rules -/

section Rules

variable {H} {R G : σ → σ → Prop} {Q M : α → σ → Prop} {s s' : σ}

theorem Prog.Safe.ret {a : α} (h : Q a s) : (Prog.ret a : Prog Γ α).Safe H R G Q s := h

/-- The rule of one operation. -/
theorem Prog.Safe.op {o : Γ.Op} {k : Γ.Resp o → Prog Γ α}
    (h : ∀ s₁, R s s₁ → ∀ c r s', H.perform s₁ o c = some (r, s') →
      G s₁ s' ∧ (k r).Safe H R G Q s') :
    (Prog.op o k).Safe H R G Q s := h

/-- The rule of consequence. -/
theorem Prog.Safe.mono {p : Prog Γ α} (h : p.Safe H R G Q s) (hQ : ∀ a t, Q a t → M a t) :
    p.Safe H R G M s := by
  induction p generalizing s with
  | ret a => exact hQ a s h
  | op o k ih =>
      intro s₁ hR c r s' hstep
      obtain ⟨hG, hk⟩ := h s₁ hR c r s' hstep
      exact ⟨hG, ih r hk⟩

/-- Interference before the next operation does no harm, where the postcondition is stable. -/
theorem Prog.Safe.stable {p : Prog Γ α} (h : p.Safe H R G Q s)
    (htrans : ∀ a b c, R a b → R b c → R a c) (hQ : ∀ a t t', Q a t → R t t' → Q a t')
    (hR : R s s') : p.Safe H R G Q s' := by
  cases p with
  | ret a => exact hQ a s s' h hR
  | op o k => exact fun s₁ hR₁ => h s₁ (htrans _ _ _ hR hR₁)

/-- The rule of sequential composition. -/
theorem Prog.Safe.bind {p : Prog Γ α} {f : α → Prog Γ β} {Q : β → σ → Prop}
    (h : p.Safe H R G (fun a t => (f a).Safe H R G Q t) s) :
    (p.bind f).Safe H R G Q s := by
  induction p generalizing s with
  | ret a => exact h
  | op o k ih =>
      intro s₁ hR c r s' hstep
      obtain ⟨hG, hk⟩ := h s₁ hR c r s' hstep
      exact ⟨hG, ih r hk⟩

/-- Composition with an intermediate assertion. -/
theorem Prog.Safe.seq {p : Prog Γ α} {f : α → Prog Γ β} {Q : β → σ → Prop}
    (h : p.Safe H R G M s) (hf : ∀ a t, M a t → (f a).Safe H R G Q t) :
    (p >>= f).Safe H R G Q s :=
  Prog.Safe.bind (h.mono hf)

/-- A program whose operations all keep an invariant keeps it, whatever it returns. -/
theorem Prog.Safe.of_only {P : Γ.Op → Prop} {I : σ → Prop} {p : Prog Γ α} (hp : p.Only P)
    (hR : ∀ t t', I t → R t t' → I t')
    (hstep : ∀ t o c r t', P o → I t → H.perform t o c = some (r, t') → G t t' ∧ I t')
    (hs : I s) : p.Safe H R G (fun _ => I) s := by
  induction p generalizing s with
  | ret a => exact hs
  | op o k ih =>
      intro s₁ hRs c r s' h
      obtain ⟨hG, hI⟩ := hstep s₁ o c r s' hp.1 (hR s s₁ hs hRs) h
      exact ⟨hG, ih r (hp.2 r) hI⟩

/-- The rule of iteration with an accumulator: an invariant that each turn keeps, with the
element known to be one of the list. -/
theorem Prog.Safe.foldUntil {xs : List α} {acc : β} {body : β → α → Prog Γ (Bool × β)}
    {I : β → σ → Prop}
    (hbody : ∀ x ∈ xs, ∀ b t, I b t → (body b x).Safe H R G (fun r => I r.2) t) (hs : I acc s) :
    (Prog.foldUntil xs acc body).Safe H R G I s := by
  induction xs generalizing s acc with
  | nil => exact hs
  | cons x rest ih =>
      refine Prog.Safe.bind ((hbody x (by simp) acc s hs).mono fun r t ht => ?_)
      split
      · exact ih (fun y hy => hbody y (List.mem_cons_of_mem _ hy)) ht
      · exact ht

/-- Where every turn goes on, the invariant may speak of the elements done so far. -/
theorem Prog.Safe.foldUntil_done {xs : List α} {acc : β} {body : β → α → Prog Γ (Bool × β)}
    {I : List α → β → σ → Prop}
    (hbody : ∀ before x after, xs = before ++ x :: after → ∀ b t, I before b t →
      (body b x).Safe H R G (fun r t => r.1 = true ∧ I (before ++ [x]) r.2 t) t)
    (hs : I [] acc s) : (Prog.foldUntil xs acc body).Safe H R G (I xs) s := by
  have hrest : ∀ rest before acc s, xs = before ++ rest → I before acc s →
      (Prog.foldUntil rest acc body).Safe H R G (I xs) s := by
    intro rest
    induction rest with
    | nil =>
        intro before acc s hxs hbefore
        rw [List.append_nil] at hxs
        rw [hxs]
        exact hbefore
    | cons x after ih =>
        intro before acc s hxs hbefore
        refine Prog.Safe.bind ((hbody before x after hxs acc s hbefore).mono fun r t hr => ?_)
        rw [if_pos hr.1]
        exact ih (before ++ [x]) r.2 t (by simp [hxs]) hr.2
  exact hrest xs [] acc s rfl hs

/-- The values a program can return, and an invariant its operations keep. -/
theorem Prog.Safe.of_yields {P : Γ.Op → Prop} {φ : α → Prop} {I : σ → Prop} {p : Prog Γ α}
    (hp : p.Only P) (hφ : p.Yields φ) (hR : ∀ t t', I t → R t t' → I t')
    (hstep : ∀ t o c r t', P o → I t → H.perform t o c = some (r, t') → G t t' ∧ I t')
    (hs : I s) : p.Safe H R G (fun a t => φ a ∧ I t) s := by
  induction p generalizing s with
  | ret a => exact ⟨hφ, hs⟩
  | op o k ih =>
      intro s₁ hRs c r s' h
      obtain ⟨hG, hI⟩ := hstep s₁ o c r s' hp.1 (hR s s₁ hs hRs) h
      exact ⟨hG, ih r (hp.2 r) (hφ r) hI⟩

/-- What interference and the guarantee leave alone may be carried along. -/
theorem Prog.Safe.frame {F : σ → Prop} {p : Prog Γ α} (h : p.Safe H R R Q s)
    (hF : ∀ t t', F t → R t t' → F t') (hs : F s) :
    p.Safe H R R (fun a t => F t ∧ Q a t) s := by
  induction p generalizing s with
  | ret a => exact ⟨hs, h⟩
  | op o k ih =>
      intro s₁ hR c r s' hstep
      obtain ⟨hG, hk⟩ := h s₁ hR c r s' hstep
      exact ⟨hG, ih r hk (hF _ _ (hF _ _ hs hR) hG)⟩

end Rules

/-! ## Promises

A promise is alive until it has ended, for good: interference keeps it either way, and a program
keeps it when at every point a promise that holds goes on holding. -/

/-- A state property with a way to end. -/
structure Promise (H : Handler Γ σ χ) (R : σ → σ → Prop) where
  alive : σ → Prop
  ended : σ → Prop
  alive_rely : ∀ {s s'}, alive s → R s s' → alive s'
  ended_rely : ∀ {s s'}, ended s → R s s' → ended s'
  ended_step : ∀ {s o c r s'}, ended s → H.perform s o c = some (r, s') → ended s'

section Keeps

variable {H} {R : σ → σ → Prop} {P : Promise H R} {Q M : α → σ → Prop} {s : σ}

/-- The promise is alive, or has ended. -/
def Promise.holds (P : Promise H R) (s : σ) : Prop := P.alive s ∨ P.ended s

/-- The program keeps the promise at every point, and returns with it ended or alive and `Q`. -/
def Prog.Keeps (P : Promise H R) (p : Prog Γ α) (Q : α → σ → Prop) (s : σ) : Prop :=
  p.Safe H R (fun s s' => P.holds s → P.holds s') (fun x t => P.ended t ∨ (P.alive t ∧ Q x t)) s

/-- Once the promise has ended every program keeps it. -/
theorem Prog.Keeps.of_ended {p : Prog Γ α} (h : P.ended s) : p.Keeps P Q s := by
  refine (Prog.Safe.of_only (P := fun _ => True) (I := P.ended) ?_ ?_ ?_ h).mono fun _ _ => Or.inl
  · induction p with
    | ret => trivial
    | op o k ih => exact ⟨trivial, fun r => ih r⟩
  · exact fun t t' hended hR => P.ended_rely hended hR
  · intro t o c r t' _ hended hstep
    have hended' := P.ended_step hended hstep
    exact ⟨fun _ => Or.inr hended', hended'⟩

theorem Prog.Keeps.ret {x : α} (halive : P.alive s) (hQ : Q x s) :
    (Prog.ret x : Prog Γ α).Keeps P Q s := Or.inr ⟨halive, hQ⟩

/-- The rule of one operation. -/
theorem Prog.Keeps.op {o : Γ.Op} {k : Γ.Resp o → Prog Γ α} (halive : P.alive s)
    (h : ∀ s₁, R s s₁ → P.alive s₁ → ∀ c r s', H.perform s₁ o c = some (r, s') →
      P.ended s' ∨ (P.alive s' ∧ (k r).Keeps P Q s')) :
    (Prog.call o >>= k).Keeps P Q s := by
  intro s₁ hR c r s' hstep
  rcases h s₁ hR (P.alive_rely halive hR) c r s' hstep with hended | ⟨halive', hk⟩
  · exact ⟨fun _ => Or.inr hended, Prog.Keeps.of_ended hended⟩
  · exact ⟨fun _ => Or.inl halive', hk⟩

/-- One operation keeps a promise if it keeps it alive or ends it. -/
theorem Prog.Keeps.call {o : Γ.Op} {Q : Γ.Resp o → σ → Prop} (halive : P.alive s)
    (h : ∀ s₁, R s s₁ → P.alive s₁ → ∀ c r s', H.perform s₁ o c = some (r, s') →
      P.ended s' ∨ (P.alive s' ∧ Q r s')) :
    (Prog.call o : Prog Γ (Γ.Resp o)).Keeps P Q s := by
  intro s₁ hR c r s' hstep
  have h' := h s₁ hR (P.alive_rely halive hR) c r s' hstep
  exact ⟨fun _ => h'.symm.imp_left And.left, h'⟩

/-- The rule of sequential composition. -/
theorem Prog.Keeps.seq {p : Prog Γ α} {f : α → Prog Γ β} {Q : β → σ → Prop} (h : p.Keeps P M s)
    (hf : ∀ x t, P.alive t → M x t → (f x).Keeps P Q t) : (p >>= f).Keeps P Q s := by
  refine Prog.Safe.seq h fun x t hx => ?_
  rcases hx with hended | ⟨halive, hM⟩
  · exact Prog.Keeps.of_ended hended
  · exact hf x t halive hM

/-- The postcondition of a program that keeps a promise may be weakened. -/
theorem Prog.Keeps.mono {p : Prog Γ α} (h : p.Keeps P Q s) (hQ : ∀ x t, Q x t → M x t) :
    p.Keeps P M s :=
  Prog.Safe.mono h fun x t hx => hx.imp_right fun ⟨halive, hq⟩ => ⟨halive, hQ x t hq⟩

/-- A program whose operations all keep the promise alive. -/
theorem Prog.Keeps.of_only {O : Γ.Op → Prop} {p : Prog Γ α} (hp : p.Only O)
    (hstep : ∀ t o c r t', O o → P.alive t → H.perform t o c = some (r, t') → P.alive t')
    (halive : P.alive s) : p.Keeps P (fun _ _ => True) s := by
  refine (Prog.Safe.of_only hp (I := P.alive) ?_ ?_ halive).mono fun _ _ h => Or.inr ⟨h, trivial⟩
  · exact fun t t' ha hR => P.alive_rely ha hR
  · intro t o c r t' ho ha h
    have ha' := hstep t o c r t' ho ha h
    exact ⟨fun _ => Or.inl ha', ha'⟩

/-- What interference and the operations leave alone may be carried along. -/
theorem Prog.Keeps.frame {O : Γ.Op → Prop} {F : σ → Prop} {p : Prog Γ α} (h : p.Keeps P Q s)
    (hp : p.Only O) (hrely : ∀ t t', F t → R t t' → F t')
    (hstep : ∀ t o c r t', O o → F t → H.perform t o c = some (r, t') → F t') (hF : F s) :
    p.Keeps P (fun x t => Q x t ∧ F t) s := by
  induction p generalizing s with
  | ret a => exact Or.imp_right (fun ⟨ha, hq⟩ => ⟨ha, hq, hF⟩) h
  | op o k ih =>
      intro s₁ hR c r s' hs
      obtain ⟨hG, hk⟩ := h s₁ hR c r s' hs
      exact ⟨hG, ih r hk (hp.2 r) (hstep _ _ _ _ _ hp.1 (hrely _ _ hF hR) hs)⟩

/-- A program whose operations all keep the promise alive, with the values it can return. -/
theorem Prog.Keeps.of_yields {O : Γ.Op → Prop} {φ : α → Prop} {p : Prog Γ α} (hp : p.Only O)
    (hφ : p.Yields φ)
    (hstep : ∀ t o c r t', O o → P.alive t → H.perform t o c = some (r, t') → P.alive t')
    (halive : P.alive s) : p.Keeps P (fun x _ => φ x) s := by
  induction p generalizing s with
  | ret a => exact Or.inr ⟨halive, hφ⟩
  | op o k ih =>
      intro s₁ hR c r s' hs
      have halive' := hstep _ _ _ _ _ hp.1 (P.alive_rely halive hR) hs
      exact ⟨fun _ => Or.inl halive', ih r (hp.2 r) (hφ r) halive'⟩

/-- The rule of iteration with an accumulator. -/
theorem Prog.Keeps.foldUntil {xs : List α} {acc : β} {body : β → α → Prog Γ (Bool × β)}
    {I : β → σ → Prop} (halive : P.alive s) (hI : I acc s)
    (hbody : ∀ x ∈ xs, ∀ b t, P.alive t → I b t → (body b x).Keeps P (fun r => I r.2) t) :
    (Prog.foldUntil xs acc body).Keeps P I s := by
  refine Prog.Safe.foldUntil (I := fun b t => P.ended t ∨ (P.alive t ∧ I b t)) ?_
    (Or.inr ⟨halive, hI⟩)
  intro x hx b t ht
  rcases ht with hended | ⟨ha, hb⟩
  · exact Prog.Keeps.of_ended hended
  · exact hbody x hx b t ha hb

end Keeps

/-! ## Every tape -/

/-- Where every operation has every choice, a program can be played against every tape. -/
theorem Prog.exists_play {H : Handler Γ σ χ} (h : ∀ s o c, (H.perform s o c).isSome)
    (p : Prog Γ α) (s : σ) (tape : List χ) : ∃ p' s', p.play H s tape = some (p', s') := by
  induction p generalizing s tape with
  | ret a => exact ⟨_, _, rfl⟩
  | op o k ih =>
      cases tape with
      | nil => exact ⟨_, _, rfl⟩
      | cons c tape =>
          obtain ⟨⟨r, t⟩, hstep⟩ := Option.isSome_iff_exists.mp (h s o c)
          obtain ⟨p', s', hrest⟩ := ih r t tape
          exact ⟨p', s', by rw [Prog.play, hstep, Option.bind_some, hrest]⟩

section Tape

variable {H} {R G : σ → σ → Prop} {Q : α → σ → Prop}

/-- An undisturbed program that finished did so in its postcondition, whatever it guarantees. -/
theorem Prog.Safe.value {p p' : Prog Γ α} {s s' : σ} {tape : List χ} (hR : ∀ t, R t t)
    (h : p.Safe H R G Q s) (hplay : p.play H s tape = some (p', s')) {a : α}
    (ha : p'.value? = some a) : Q a s' := by
  induction p generalizing s tape with
  | ret b =>
      obtain ⟨rfl, rfl⟩ : .ret b = p' ∧ s = s' := by simpa [Prog.play] using hplay
      obtain rfl : b = a := Option.some.inj ha
      exact h
  | op o k ih =>
      cases tape with
      | nil =>
          obtain ⟨rfl, rfl⟩ : .op o k = p' ∧ s = s' := by simpa [Prog.play] using hplay
          cases ha
      | cons c tape =>
          obtain ⟨⟨r, t⟩, hstep, hrest⟩ := Option.bind_eq_some_iff.mp hplay
          exact ih r (h s (hR s) c r t hstep).2 hrest

/-- **What `Safe` promises holds after every tape** of an undisturbed program: the states along
the run are linked by `G`, and a program that finished did so in its postcondition. -/
theorem Prog.Safe.play {p : Prog Γ α} {s s' : σ} {p' : Prog Γ α} {tape : List χ}
    (hR : ∀ t, R t t) (hrefl : ∀ t, G t t) (htrans : ∀ a b c, G a b → G b c → G a c)
    (h : p.Safe H R G Q s) (hplay : p.play H s tape = some (p', s')) :
    G s s' ∧ ∀ a, p'.value? = some a → Q a s' := by
  induction p generalizing s tape with
  | ret a =>
      simp only [Prog.play, Option.some.injEq, Prod.mk.injEq] at hplay
      obtain ⟨rfl, rfl⟩ := hplay
      exact ⟨hrefl _, fun b hb => by cases hb; exact h⟩
  | op o k ih =>
      cases tape with
      | nil =>
          simp only [Prog.play, Option.some.injEq, Prod.mk.injEq] at hplay
          obtain ⟨rfl, rfl⟩ := hplay
          exact ⟨hrefl _, fun b hb => by cases hb⟩
      | cons c tape =>
          obtain ⟨⟨r, t⟩, hstep, hrest⟩ := Option.bind_eq_some_iff.mp hplay
          obtain ⟨hG, hk⟩ := h s (hR s) c r t hstep
          obtain ⟨hG', hpost⟩ := ih r hk hrest
          exact ⟨htrans _ _ _ hG hG', hpost⟩

end Tape

end Interaction
