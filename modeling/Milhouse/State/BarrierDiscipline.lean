import Milhouse.State.Barrier

/-!
# Milhouse — the discipline of the barrier's context managers

A call asks for the main lock only while it holds the gate, and its body is in an exclusive phase only
while the call is *cleared*, that is, has held the gate exclusively ever since it held the main lock
exclusively. `Disciplined` follows what a call certainly holds through its program, over every
response its operations can get.

* **`GlobalCommitBarrier.Request.disciplined`** — the three context managers follow the discipline;
* **`GlobalCommitBarrier.Request.performs`** — a body comes to the phases of its context manager only;
* **`GlobalCommitBarrier.Request.ends`** — a writer's body ends once.
-/

namespace Milhouse

open Interaction Transition Flock

/-! ## The discipline of a call -/

/-- What a call certainly holds at a point of its program. -/
structure Hold where
  gate : Option Mode
  main : Option Mode
  /-- The main lock was exclusive at some point since the gate is. -/
  cleared : Bool
  registered : Option Caller
  /-- `_exclusive_depth` while registered. -/
  depth : Nat
  phase : Option HoldPhase

namespace Hold

def empty : Hold := ⟨none, none, false, none, 0, none⟩

/-- What a phase takes. -/
def Justifies (h : Hold) : HoldPhase → Prop
  | .shared | .publish => h.main = some .shared
  | .exclusive | .recovery | .handover => h.cleared = true

structure Sound (h : Hold) : Prop where
  cleared : h.cleared = true → h.gate = some .exclusive
  registered : h.registered.isSome → h.cleared = true ∧ 0 < h.depth
  phase : ∀ φ, h.phase = some φ → h.Justifies φ

/-- The conversion of the main lock may lose it. -/
def lost (h : Hold) : Hold := { h with main := none }

/-- The gate is given back. -/
def opened (h : Hold) : Hold := { h with gate := none, cleared := false }

/-- Outside a body there is nothing to justify. -/
theorem Sound.of_quiet {h : Hold} (hcleared : h.cleared = true → h.gate = some .exclusive)
    (hregistered : h.registered = none) (hphase : h.phase = none) : h.Sound := by
  refine ⟨hcleared, fun hr => ?_, fun φ hφ => ?_⟩
  · rw [hregistered] at hr
    cases hr
  · rw [hphase] at hφ
    cases hφ

/-- What an operation needs. -/
def Permits (h : Hold) (me : Caller) : BarrierOp → Prop
  | .flock level .gate _ _ => level = 0 ∧ h.gate = none
  | .flock level .main _ _ => level = 0 ∧ h.gate.isSome ∧ h.lost.Sound
  | .unlock level _ | .close level _ => level = 0
  | .fields c => c.process = me.process ∧ c.thread = me.thread
  | .deepen c | .unregister c => h.registered = some c
  | .shallow c => h.registered = some c ∧ 1 < h.depth
  | .register c => c = me ∧ h.registered = none
  | _ => True

/-- The responses an operation can get: an instance is reentered where its hold is this call's. -/
def Allows (h : Hold) : (o : BarrierOp) → barrierSignature.Resp o → Prop
  | .fields c, fields => BarrierFields.reenters fields c = true ↔ h.registered = some c
  | .owner process, owner => ∀ c, h.registered = some c → c.process = process →
      owner = some (c.self, c.thread)
  | _, _ => True

/-- What is held after an operation. -/
def after (h : Hold) : (o : BarrierOp) → barrierSignature.Resp o → Hold
  | .flock _ .gate mode _, .granted => { h with gate := some mode }
  | .flock _ .main mode _, .granted =>
      { h with
        main := some mode
        cleared := h.cleared || (mode = .exclusive && h.gate = some .exclusive) }
  | .flock _ .main _ _, _ => h.lost
  | .unlock _ .gate, _ | .close _ .gate, _ => h.opened
  | .unlock _ .main, _ | .close _ .main, _ => h.lost
  | .register c, _ => { h with registered := some c, depth := 1 }
  | .deepen _, _ => { h with depth := h.depth + 1 }
  | .shallow _, _ => { h with depth := h.depth - 1 }
  | .unregister _, _ => { h with registered := none }
  | .enter φ, _ => { h with phase := some φ }
  | .leave, _ => { h with phase := none }
  | _, _ => h

end Hold

/-- Every operation of the program is permitted, what is held after it is sound, and the program
returns only where `Q` holds. -/
def Disciplined {α : Type} (me : Caller) (Q : α → Hold → Prop) : Hold → BarrierProg α → Prop
  | h, .ret a => Q a h
  | h, .op o k => h.Permits me o ∧ ∀ r, h.Allows o r → (h.after o r).Sound ∧
      Disciplined me Q (h.after o r) (k r)

section Rules

variable {α β : Type} {me : Caller} {h : Hold} {p : BarrierProg α} {Q M : α → Hold → Prop}

/-- A program is disciplined if its first part is and the second is from every hold the first can
end in. -/
theorem Disciplined.seq {N : β → Hold → Prop} {f : α → BarrierProg β}
    (hp : Disciplined me M h p) (hf : ∀ a h, M a h → Disciplined me N h (f a)) :
    Disciplined me N h (p >>= f) := by
  induction p generalizing h with
  | ret a => exact hf a h hp
  | op o k ih =>
      obtain ⟨hpermits, hrest⟩ := hp
      exact ⟨hpermits, fun r hr => ⟨(hrest r hr).1, ih r (hrest r hr).2⟩⟩

/-- Giving locks back. -/
def BarrierOp.releases : BarrierOp → Prop
  | .unlock level _ | .close level _ => level = 0
  | _ => False

/-- Outside a body, everything may be given back. -/
theorem Disciplined.of_releases (hp : p.Only BarrierOp.releases) (hphase : h.phase = none)
    (hregistered : h.registered = none) (hcleared : h.cleared = true → h.gate = some .exclusive) :
    Disciplined me (fun _ h => h.registered = none) h p := by
  induction p generalizing h with
  | ret a => exact hregistered
  | op o k ih =>
      have hlost : ∀ r, h.lost.Sound ∧ Disciplined me (fun _ h => h.registered = none) h.lost (k r) := fun r =>
        ⟨.of_quiet hcleared hregistered hphase, ih r (hp.2 r) hphase hregistered hcleared⟩
      have hopened : ∀ r, h.opened.Sound ∧ Disciplined me (fun _ h => h.registered = none) h.opened (k r) :=
        fun r => ⟨.of_quiet nofun hregistered hphase, ih r (hp.2 r) hphase hregistered nofun⟩
      cases o with
      | unlock level file =>
          refine ⟨hp.1, fun r _ => ?_⟩
          cases file with
          | main => exact hlost r
          | gate => exact hopened r
      | close level file =>
          refine ⟨hp.1, fun r _ => ?_⟩
          cases file with
          | main => exact hlost r
          | gate => exact hopened r
      | _ => exact absurd hp.1 id

end Rules

namespace GlobalCommitBarrier

variable {me : Caller}

theorem when_only {P : BarrierOp → Prop} {flag : Bool} {p : BarrierProg Unit} (hp : p.Only P) :
    (when flag p).Only P := by
  cases flag with
  | false => trivial
  | true => exact hp

section Ends

variable {P : BarrierOp → Prop} {level : Nat} {has : Held}

/-- The end of a shared section unlocks and closes and does nothing else. -/
theorem endShared_only (hunlock : ∀ file, P (.unlock level file))
    (hclose : ∀ file, P (.close level file)) : (endShared level has).Only P := by
  have hop : ∀ f, (Prog.op (.unlock level f) .ret : BarrierProg Unit).Only P ∧
      (Prog.op (.close level f) .ret : BarrierProg Unit).Only P :=
    fun f => ⟨⟨hunlock f, fun _ => trivial⟩, ⟨hclose f, fun _ => trivial⟩⟩
  exact (when_only (hop _).1).bind fun _ => (when_only (hop _).1).bind fun _ =>
    (when_only (hop _).2).bind fun _ => (hop _).2

/-- The end of an exclusive section unlocks and closes and does nothing else. -/
theorem endExclusive_only (hunlock : ∀ file, P (.unlock level file))
    (hclose : ∀ file, P (.close level file)) : (endExclusive level has).Only P := by
  have hop : ∀ f, (Prog.op (.unlock level f) .ret : BarrierProg Unit).Only P ∧
      (Prog.op (.close level f) .ret : BarrierProg Unit).Only P :=
    fun f => ⟨⟨hunlock f, fun _ => trivial⟩, ⟨hclose f, fun _ => trivial⟩⟩
  exact (when_only (hop _).1).bind fun _ => (when_only (hop _).1).bind fun _ =>
    (when_only (hop _).2).bind fun _ => (hop _).2

end Ends

theorem endShared_releases (has : Held) : (endShared 0 has).Only BarrierOp.releases :=
  endShared_only (fun _ => rfl) fun _ => rfl

theorem endExclusive_releases (has : Held) : (endExclusive 0 has).Only BarrierOp.releases :=
  endExclusive_only (fun _ => rfl) fun _ => rfl

/-- After an exception nothing is left but to give back. -/
theorem raising_disciplined {h : Hold} {cleanup : BarrierProg Unit} {e : StateError}
    (hcleanup : cleanup.Only BarrierOp.releases) (hphase : h.phase = none)
    (hregistered : h.registered = none) (hcleared : h.cleared = true → h.gate = some .exclusive) :
    Disciplined me (fun _ h => h.registered = none) h (raising cleanup e) :=
  .of_releases (hcleanup.bind fun _ => trivial) hphase hregistered hcleared

/-- What an entrant holds once it has the gate, and once it has the main lock as well. -/
def gated (mode : Mode) : Hold := ⟨some mode, none, false, none, 0, none⟩

def entered (mode : Mode) : Hold := ⟨some mode, some mode, mode = .exclusive, none, 0, none⟩

section Acquire

variable {α : Type} {N : α → Hold → Prop} {f : Except StateError Unit → BarrierProg α}
  {mode : Mode} {blocking : Bool} {h : Hold}

/-- Behind the gate a thread holds it, or has raised and holds nothing. -/
theorem acquireGate_disciplined (hok : Disciplined me N (gated mode) (f (.ok ())))
    (herror : ∀ e, Disciplined me N .empty (f (.error e))) :
    Disciplined me N .empty (acquire 0 .gate mode blocking >>= f) := by
  refine ⟨⟨rfl, rfl⟩, fun r _ => ?_⟩
  cases r with
  | granted => exact ⟨.of_quiet nofun rfl rfl, hok⟩
  | busy => exact ⟨.of_quiet nofun rfl rfl, herror _⟩
  | errored => exact ⟨.of_quiet nofun rfl rfl, herror _⟩

/-- The main lock is taken behind the gate, and failing to take it leaves what was held. -/
theorem acquireMain_disciplined (hgate : h.gate.isSome) (hlost : h.lost.Sound)
    (hsound : (h.after (.flock 0 .main mode blocking) .granted).Sound)
    (hok : Disciplined me N (h.after (.flock 0 .main mode blocking) .granted) (f (.ok ())))
    (herror : ∀ e, Disciplined me N h.lost (f (.error e))) :
    Disciplined me N h (acquire 0 .main mode blocking >>= f) := by
  refine ⟨⟨rfl, hgate, hlost⟩, fun r _ => ?_⟩
  cases r with
  | granted => exact ⟨hsound, hok⟩
  | busy => exact ⟨hlost, herror _⟩
  | errored => exact ⟨hlost, herror _⟩

/-- **The entry** of the three context managers up to the main lock. -/
theorem entry_disciplined {cleanup : Held → BarrierProg Unit}
    {body : BarrierProg (Except StateError Unit)}
    (hcleanup : ∀ has, (cleanup has).Only BarrierOp.releases)
    (hbody : Disciplined me (fun _ h => h.registered = none) (entered mode) body) :
    Disciplined me (fun _ h => h.registered = none) .empty
      (entering 0 mode blocking cleanup body) := by
  have hraising : ∀ has e h, h = .empty ∨ h = gated mode →
      Disciplined me (fun _ h => h.registered = none) h (raising (cleanup has) e) := by
    rintro has e h (rfl | rfl)
    · exact raising_disciplined (hcleanup has) rfl rfl nofun
    · exact raising_disciplined (hcleanup has) rfl rfl nofun
  refine ⟨trivial, fun r _ => ⟨.of_quiet nofun rfl rfl, ?_⟩⟩
  rcases r with e | _
  · rfl
  refine ⟨trivial, fun r _ => ⟨.of_quiet nofun rfl rfl, ?_⟩⟩
  rcases r with e | _
  · exact hraising _ _ _ (Or.inl rfl)
  refine acquireGate_disciplined ?_ fun e => hraising _ _ _ (Or.inl rfl)
  have hentered : (gated mode).after (.flock 0 .main mode blocking) .granted = entered mode := by
    cases mode <;> rfl
  refine acquireMain_disciplined rfl (.of_quiet nofun rfl rfl) ?_ ?_ fun e =>
    hraising _ _ _ (Or.inr rfl)
  · rw [hentered]
    exact .of_quiet (fun h => by simpa [entered] using h) rfl rfl
  · rw [hentered]
    exact hbody

end Acquire

/-- A shared section ends with nothing registered, whatever failed in it. -/
theorem shared_disciplined {blocking : Bool} :
    Disciplined me (fun _ h => h.registered = none) .empty (shared 0 blocking) := by
  refine entry_disciplined endShared_releases ?_
  -- the gate is given back before the body, the main lock after it
  have hshared : ∀ φ, (⟨none, some .shared, false, none, 0, some φ⟩ : Hold).Sound ↔
      (⟨none, some .shared, false, none, 0, some φ⟩ : Hold).Justifies φ :=
    fun φ => ⟨fun h => h.phase φ rfl, fun h => ⟨nofun, nofun, fun _ hφ => Option.some.inj hφ ▸ h⟩⟩
  refine ⟨rfl, fun _ _ => ⟨.of_quiet nofun rfl rfl, trivial, fun _ _ => ⟨(hshared .shared).mpr rfl,
    trivial, fun _ _ => ⟨.of_quiet nofun rfl rfl, ?_⟩⟩⟩⟩
  exact .of_releases ((endShared_releases _).bind fun _ => trivial) rfl rfl nofun

/-- What the body of an exclusive hold runs with, `depth` calls of `exclusive()` deep. -/
def exclusiveHold (me : Caller) (depth : Nat) : Hold :=
  ⟨some .exclusive, some .exclusive, true, some me, depth, some .exclusive⟩

/-- A thread that is inside an exclusive section holds what its depth says it holds. -/
theorem exclusiveHold_sound {depth : Nat} (hdepth : 0 < depth) : (exclusiveHold me depth).Sound :=
  ⟨fun _ => rfl, fun _ => ⟨rfl, hdepth⟩, fun _ hφ => Option.some.inj hφ ▸ rfl⟩

/-- **A nested call** takes no lock: it reenters the hold of its own instance, and is refused another
instance. -/
theorem nested_disciplined (level : Nat) (c : Caller) (blocking : Bool) {depth : Nat}
    {body : BarrierProg Unit} (hprocess : c.process = me.process) (hthread : c.thread = me.thread)
    (hdepth : 0 < depth)
    (hbody : Disciplined me (fun _ h => h = exclusiveHold me (depth + 1))
      (exclusiveHold me (depth + 1)) body) :
    Disciplined me (fun _ h => h = exclusiveHold me depth) (exclusiveHold me depth)
      (exclusive level c blocking body) := by
  refine ⟨⟨hprocess, hthread⟩, fun fields hfields => ⟨exclusiveHold_sound hdepth, ?_⟩⟩
  by_cases hc : me = c
  · subst hc
    have hreenters : BarrierFields.reenters fields me = true := hfields.mpr rfl
    simp only [hreenters, if_true]
    refine ⟨rfl, fun _ _ => ⟨exclusiveHold_sound (Nat.succ_pos _), ?_⟩⟩
    refine hbody.seq fun _ h hh => ?_
    subst hh
    exact ⟨⟨rfl, Nat.succ_lt_succ hdepth⟩, fun _ _ => ⟨exclusiveHold_sound hdepth, rfl⟩⟩
  · have hother : ¬ BarrierFields.reenters fields c = true := by
      intro hreenters
      exact hc (Option.some.inj (hfields.mp hreenters))
    simp only [hother]
    refine ⟨trivial, fun owner howner => ⟨exclusiveHold_sound hdepth, ?_⟩⟩
    have howner : owner = some (me.self, me.thread) := howner me rfl hprocess.symm
    have hself : me.self ≠ c.self := by
      rintro hself
      apply hc
      cases me
      cases c
      simp_all
    have hrefused : ownedElsewhere owner c = true := by
      rw [howner]
      simp [ownedElsewhere, hthread, hself]
    simp only [hrefused]
    rfl

/-- A body that nests further sections leaves the exclusive hold as it found it. -/
theorem Body.disciplined (body : Body) : ∀ (level depth : Nat) (c : Caller), 0 < depth →
    c.process = me.process → c.thread = me.thread →
      Disciplined me (fun _ h => h = exclusiveHold me depth) (exclusiveHold me depth)
        (body.prog level c) := by
  induction body with
  | done => exact fun _ _ _ _ _ _ => rfl
  | exclusive self blocking inner next inner_ih next_ih =>
      intro level depth c hdepth hprocess hthread
      have hinner := inner_ih (level + 1) (depth + 1) { c with self := self } (Nat.succ_pos _)
        hprocess hthread
      have hnested := nested_disciplined (level + 1) { c with self := self } blocking hprocess
        hthread hdepth hinner
      refine hnested.seq fun _ h hh => ?_
      subst hh
      exact next_ih level depth c hdepth hprocess hthread

/-- An exclusive section ends with nothing registered, if its body is disciplined. -/
theorem exclusive_disciplined {blocking : Bool} {body : BarrierProg Unit}
    (hbody : Disciplined me (fun _ h => h = exclusiveHold me 1) (exclusiveHold me 1) body) :
    Disciplined me (fun _ h => h.registered = none) .empty (exclusive 0 me blocking body) := by
  refine ⟨⟨rfl, rfl⟩, fun fields hfields => ⟨.of_quiet nofun rfl rfl, ?_⟩⟩
  have hfree : ¬ BarrierFields.reenters fields me = true := by
    intro hreenters
    cases hfields.mp hreenters
  simp only [hfree]
  refine ⟨trivial, fun owner _ => ⟨.of_quiet nofun rfl rfl, ?_⟩⟩
  cases howned : ownedElsewhere owner me with
  | true =>
      simp only [howned]
      rfl
  | false =>
  simp only [howned]
  refine entry_disciplined endExclusive_releases ?_
  refine ⟨⟨rfl, rfl⟩, fun _ _ => ⟨⟨fun _ => rfl, fun _ => ⟨rfl, Nat.one_pos⟩, nofun⟩, trivial,
    fun _ _ => ⟨exclusiveHold_sound Nat.one_pos, ?_⟩⟩⟩
  refine hbody.seq fun _ h hh => ?_
  subst hh
  refine ⟨trivial, fun _ _ => ⟨⟨fun _ => rfl, fun _ => ⟨rfl, Nat.one_pos⟩, nofun⟩, rfl, fun _ _ =>
    ⟨.of_quiet (fun _ => rfl) rfl rfl, ?_⟩⟩⟩
  exact .of_releases ((endExclusive_releases _).bind fun _ => trivial) rfl rfl fun _ => rfl

/-- A writer before its transition, whatever is left of its main lock, and after it. -/
def WriterHold (w : Writer) (h : Hold) : Prop :=
  (w = ⟨true, false, true, true⟩ ∧
    ∃ main, h = ⟨some .exclusive, main, true, none, 0, some .recovery⟩) ∨
  (w = ⟨true, true, false, true⟩ ∧ h = ⟨none, some .shared, false, none, 0, some .publish⟩)

/-- The hold of a writer is sound in each of the stages its acquisition goes through. -/
theorem WriterHold.sound {w : Writer} {h : Hold} (hw : WriterHold w h) : h.Sound := by
  rcases hw with ⟨-, main, rfl⟩ | ⟨-, rfl⟩
  · exact ⟨fun _ => rfl, nofun, fun _ hφ => Option.some.inj hφ ▸ rfl⟩
  · exact ⟨nofun, nofun, fun _ hφ => Option.some.inj hφ ▸ rfl⟩

/-- **The transition** comes to the publish phase, or leaves the writer where it was; the gate is
exclusive until the main lock is shared. -/
theorem transition_disciplined {w : Writer} {h : Hold} (hw : WriterHold w h) :
    Disciplined me (fun r h => WriterHold r.2 h) h (transition 0 w) := by
  rcases hw with ⟨rfl, main, rfl⟩ | ⟨rfl, rfl⟩
  · have hsound : ∀ main φ, φ = .recovery ∨ φ = .handover →
        (⟨some .exclusive, main, true, none, 0, some φ⟩ : Hold).Sound := by
      rintro main φ (rfl | rfl)
      · exact ⟨fun _ => rfl, nofun, fun _ hφ => Option.some.inj hφ ▸ rfl⟩
      · exact ⟨fun _ => rfl, nofun, fun _ hφ => Option.some.inj hφ ▸ rfl⟩
    refine ⟨trivial, fun _ _ => ⟨hsound main .handover (Or.inr rfl), ?_⟩⟩
    refine acquireMain_disciplined rfl (hsound none _ (Or.inr rfl)) (hsound (some .shared) _
      (Or.inr rfl)) ?_ fun e => ?_
    · refine ⟨trivial, fun _ _ => ⟨⟨fun _ => rfl, nofun, fun _ hφ => Option.some.inj hφ ▸ rfl⟩,
        rfl, fun _ _ => ⟨⟨nofun, nofun, fun _ hφ => Option.some.inj hφ ▸ rfl⟩, ?_⟩⟩⟩
      exact Or.inr ⟨rfl, rfl⟩
    · refine ⟨trivial, fun _ _ => ⟨hsound none _ (Or.inl rfl), ?_⟩⟩
      exact Or.inl ⟨rfl, none, rfl⟩
  · exact Or.inr ⟨rfl, rfl⟩

/-- A writer keeps its hold through every attempt of a transition. -/
theorem attempt_disciplined {attempts : Nat} {w : Writer} {h : Hold} (hw : WriterHold w h) :
    Disciplined me WriterHold h (attempt 0 w attempts) := by
  induction attempts generalizing w h with
  | zero => exact hw
  | succ attempts ih => exact (transition_disciplined hw).seq fun r h hr => ih hr

/-- The split section, converted or retried, ends with nothing registered. -/
theorem exclusiveThenShared_disciplined {blocking : Bool} {attempts : Nat} :
    Disciplined me (fun _ h => h.registered = none) .empty (exclusiveThenShared 0 blocking attempts) := by
  refine entry_disciplined endExclusive_releases ?_
  have hrecovery : WriterHold ⟨true, false, true, true⟩
      ((entered .exclusive).after (.enter .recovery) ()) := Or.inl ⟨rfl, _, rfl⟩
  refine ⟨trivial, fun _ _ => ⟨hrecovery.sound, ?_⟩⟩
  refine (attempt_disciplined hrecovery).seq fun w h hw => ?_
  have hquiet : h.registered = none ∧ (h.cleared = true → h.gate = some .exclusive) := by
    rcases hw with ⟨-, main, rfl⟩ | ⟨-, rfl⟩
    · exact ⟨rfl, fun _ => rfl⟩
    · exact ⟨rfl, nofun⟩
  refine ⟨trivial, fun _ _ => ⟨.of_quiet hquiet.2 hquiet.1 rfl, ?_⟩⟩
  exact .of_releases ((endExclusive_releases _).bind fun _ => trivial) rfl hquiet.1 hquiet.2

/-- **Every call follows the discipline.** -/
theorem Request.disciplined (request : Request) :
    Disciplined me (fun _ h => h.registered = none) .empty (request.prog me) := by
  cases request with
  | shared blocking => exact shared_disciplined.seq fun _ _ h => h
  | exclusive blocking body =>
      have hbody : Disciplined me (fun _ h => h = exclusiveHold me 1) (exclusiveHold me 1)
          (body.prog 0 me) := body.disciplined 0 1 me Nat.one_pos rfl rfl
      exact (exclusive_disciplined hbody).seq fun _ _ h => h
  | writer blocking attempts => exact exclusiveThenShared_disciplined.seq fun _ _ h => h

end GlobalCommitBarrier

/-! ## What the programs perform -/

namespace GlobalCommitBarrier

/-- Only `exclusive()` uses the registry, and a body comes to the phases of its context manager. -/
def Request.Performs (request : Request) : BarrierOp → Prop
  | .fields _ | .register _ => request.isExclusive = true
  | .enter φ => request.phases φ = true
  | _ => True

/-- A body comes to a phase. -/
def enters (o : BarrierOp) : Prop := ∃ φ, o = .enter φ

/-- A body ends. -/
def leaves (o : BarrierOp) : Prop := o = .leave

section Performs

variable {P : BarrierOp → Prop} {level : Nat} {mode : Mode} {blocking : Bool} {me : Caller}

/-- `P` allows what the context managers do apart from their bodies and the registry. -/
structure Routine (P : BarrierOp → Prop) : Prop where
  openLock : ∀ level file, P (.openLock level file)
  flock : ∀ level file mode blocking, P (.flock level file mode blocking)
  unlock : ∀ level file, P (.unlock level file)
  close : ∀ level file, P (.close level file)

/-- Taking a lock opens, checks and locks one file. -/
theorem acquire_only (hP : Routine P) {file : LockFile} : (acquire level file mode blocking).Only P := by
  refine ⟨hP.flock _ _ _ _, fun r => ?_⟩
  cases r <;> trivial

/-- Entering a section performs its locks, the inside and the clean-up and nothing else. -/
theorem entering_only (hP : Routine P) {cleanup : Held → BarrierProg Unit}
    {inside : BarrierProg (Except StateError Unit)} (hcleanup : ∀ has, (cleanup has).Only P)
    (hinside : inside.Only P) : (entering level mode blocking cleanup inside).Only P := by
  have hraising : ∀ has e, (raising (cleanup has) e).Only P :=
    fun has e => (hcleanup has).bind fun _ => trivial
  refine ⟨hP.openLock _ _, fun r => ?_⟩
  rcases r with e | _
  · trivial
  refine ⟨hP.openLock _ _, fun r => ?_⟩
  rcases r with e | _
  · exact hraising _ _
  refine (acquire_only hP).bind fun r => ?_
  rcases r with e | _
  · exact hraising _ _
  refine (acquire_only hP).bind fun r => ?_
  rcases r with e | _
  · exact hraising _ _
  · exact hinside

/-- A step of the acquisition does routine work and enters the phases of the exclusive side only. -/
theorem transition_only (hP : Routine P) (henter : ∀ φ, φ = .recovery ∨ φ = .handover ∨
    φ = .publish → P (.enter φ)) (w : Writer) : (transition level w).Only P := by
  unfold transition
  split
  · trivial
  · refine ⟨henter _ (by simp), fun _ => (acquire_only hP).bind fun r => ?_⟩
    rcases r with e | _
    · exact ⟨henter _ (by simp), fun _ => trivial⟩
    · exact ⟨henter _ (by simp), fun _ => ⟨hP.unlock _ _, fun _ => trivial⟩⟩

/-- However often the conversion is attempted, it does what one step may do. -/
theorem attempt_only (hP : Routine P) (henter : ∀ φ, φ = .recovery ∨ φ = .handover ∨
    φ = .publish → P (.enter φ)) (attempts : Nat) :
    ∀ w, (attempt level w attempts).Only P := by
  induction attempts with
  | zero => exact fun _ => trivial
  | succ attempts ih => exact fun w => (transition_only hP henter w).bind fun r => ih r.2

/-- An exclusive section performs only what its request allows. -/
theorem exclusive_only (request : Request) (hrequest : request.isExclusive = true)
    (hphase : request.phases .exclusive = true) {body : BarrierProg Unit}
    (hbody : body.Only request.Performs) :
    (exclusive level me blocking body).Only request.Performs := by
  have hP : Routine request.Performs :=
    ⟨fun _ _ => trivial, fun _ _ _ _ => trivial, fun _ _ => trivial, fun _ _ => trivial⟩
  refine ⟨hrequest, fun fields => ?_⟩
  cases hfields : BarrierFields.reenters fields me with
  | true =>
      simp only [hfields, if_true]
      exact ⟨trivial, fun _ => hbody.bind fun _ => ⟨trivial, fun _ => trivial⟩⟩
  | false =>
      simp only [hfields]
      refine ⟨trivial, fun owner => ?_⟩
      cases howned : ownedElsewhere owner me with
      | true =>
          simp only [howned, if_true]
          trivial
      | false =>
          simp only [howned]
          refine entering_only hP (fun _ => endExclusive_only (hP.unlock _) (hP.close _)) ?_
          exact ⟨hrequest, fun _ => ⟨hphase, fun _ => hbody.bind fun _ => ⟨trivial, fun _ =>
            ⟨trivial, fun _ => (endExclusive_only (hP.unlock _) (hP.close _)).bind fun _ => trivial⟩⟩⟩⟩

/-- Inside an exclusive section a body performs what the request allows, nested sections included.
-/
theorem Body.only (request : Request) (hrequest : request.isExclusive = true)
    (hphase : request.phases .exclusive = true) (body : Body) :
    ∀ level me, (body.prog level me).Only request.Performs := by
  induction body with
  | done => exact fun _ _ => trivial
  | exclusive self blocking inner next inner_ih next_ih =>
      intro level me
      exact (exclusive_only request hrequest hphase (inner_ih _ _)).bind fun _ => next_ih level me

/-- **The operations of a request.** -/
theorem Request.performs (request : Request) : (request.prog me).Only request.Performs := by
  have hP : Routine request.Performs :=
    ⟨fun _ _ => trivial, fun _ _ _ _ => trivial, fun _ _ => trivial, fun _ _ => trivial⟩
  cases request with
  | shared blocking =>
      refine Prog.Only.bind (entering_only hP (fun _ => endShared_only (hP.unlock _) (hP.close _)) ?_) fun _ => trivial
      exact ⟨trivial, fun _ => ⟨rfl, fun _ => ⟨trivial, fun _ =>
        (endShared_only (hP.unlock _) (hP.close _)).bind fun _ => trivial⟩⟩⟩
  | exclusive blocking body =>
      have hbody := body.only (.exclusive blocking body) rfl rfl 0 me
      exact (exclusive_only (.exclusive blocking body) rfl rfl hbody).bind fun _ => trivial
  | writer blocking attempts =>
      have henter : ∀ φ, φ = .recovery ∨ φ = .handover ∨ φ = .publish →
          (Request.writer blocking attempts).Performs (.enter φ) := by
        rintro φ (rfl | rfl | rfl) <;> rfl
      refine Prog.Only.bind (entering_only hP (fun _ => endExclusive_only (hP.unlock _) (hP.close _)) ?_) fun _ => trivial
      exact ⟨rfl, fun _ => (attempt_only hP henter attempts _).bind fun w => ⟨trivial, fun _ =>
        (endExclusive_only (hP.unlock _) (hP.close _)).bind fun _ => trivial⟩⟩

/-- **A writer's body ends once.** -/
theorem Request.ends {blocking : Bool} {attempts : Nat} :
    ((Request.writer blocking attempts).prog me).After leaves (fun o => ¬ enters o) := by
  have hstays : ∀ has, (endExclusive 0 has).Only fun o => ¬ enters o :=
    fun has => endExclusive_only (fun _ => nofun) fun _ => nofun
  have hbefore : Routine fun o => ¬ leaves o := ⟨nofun, nofun, nofun, nofun⟩
  have hcleanup : ∀ has, (endExclusive 0 has).Only fun o => ¬ leaves o :=
    fun has => endExclusive_only (hbefore.unlock _) (hbefore.close _)
  have hraising : ∀ has e, (raising (endExclusive 0 has) e).After leaves (fun o => ¬ enters o) :=
    fun has e =>
      have honly : (raising (endExclusive 0 has) e).Only fun o => ¬ leaves o :=
        (hcleanup has).bind fun _ => trivial
      honly.after
  refine Prog.After.map (f := fun _ => ()) ?_
  refine ⟨nofun, fun r => ?_⟩
  rcases r with e | _
  · trivial
  refine ⟨nofun, fun r => ?_⟩
  rcases r with e | _
  · exact hraising _ _
  refine Prog.After.bind (acquire_only hbefore) fun r => ?_
  rcases r with e | _
  · exact hraising _ _
  refine Prog.After.bind (acquire_only hbefore) fun r => ?_
  rcases r with e | _
  · exact hraising _ _
  refine ⟨nofun, fun _ => ?_⟩
  show (attempt 0 ⟨true, false, true, true⟩ attempts >>= _).After leaves _
  refine Prog.After.bind (attempt_only hbefore (fun _ _ => nofun) attempts _) fun w => ?_
  refine ⟨fun _ _ => (hstays _).bind fun _ => trivial, fun _ => ?_⟩
  have hrest : (endExclusive 0 ⟨true, w.gateHeld, w.mainHeld⟩ >>= fun _ =>
      (.ret (.ok ()) : BarrierProg (Except StateError Unit))).Only fun o => ¬ leaves o :=
    (hcleanup _).bind fun _ => trivial
  exact hrest.after

end Performs

end GlobalCommitBarrier

end Milhouse
