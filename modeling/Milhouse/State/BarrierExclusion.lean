import Milhouse.State.BarrierDiscipline

/-!
# Milhouse — the exclusion of the commit barrier

A cleared call finds nobody on the main lock, and nobody can come: the main lock is asked for under
the gate, whatever becomes of the cleared call's own main lock while it converts it.

* **`BarrierState.perform_locks`** — what one operation can do to the locks;
* **`BarrierWorld.Guarded.step`** — every step keeps what the disciplines of the calls promise;
* **`commit_barrier_exclusion`** — an exclusive phase excludes every other hold, and until a writer
  publishes nobody enters after its recovery.
-/

namespace Milhouse

open Interaction Transition Flock GlobalCommitBarrier

/-! ## One operation -/

/-- What a call certainly holds is held, and who is cleared is alone on the main lock. -/
structure Hold.Agrees (h : Hold) (s : BarrierState) (i : Nat) : Prop where
  gate : ∀ m, h.gate = some m → s.gate.mode (i, 0) = some m
  main : ∀ m, h.main = some m → s.main.mode (i, 0) = some m
  cleared : h.cleared = true → ∀ d, d ≠ (i, 0) → s.main.mode d = none

namespace BarrierState

variable {s s' : BarrierState} {i : Nat} {h : Hold} {me : Caller} {o : BarrierOp}
  {c : BarrierChoice} {r : barrierSignature.Resp o}

/-- A request is granted, or nothing happens. -/
theorem perform_flock {level : Nat} {file : LockFile} {mode : Mode} {blocking : Bool} {r : Flocked}
    (hperform : s.perform i (.flock level file mode blocking) c = some (r, s')) :
    (∃ l, (s.lock file).acquire (i, level) mode = some l ∧ r = .granted ∧ s' = s.setLock l file) ∨
      (r ≠ .granted ∧ s' = s) := by
  cases c with
  | fail e =>
      obtain ⟨rfl, rfl⟩ := Prod.mk.inj (Option.some.inj hperform)
      exact Or.inr ⟨nofun, rfl⟩
  | ok =>
      simp only [perform] at hperform
      split at hperform
      · rename_i l hacquire
        obtain ⟨rfl, rfl⟩ := Prod.mk.inj (Option.some.inj hperform)
        exact Or.inl ⟨l, hacquire, rfl, rfl⟩
      · split at hperform
        · cases hperform
        · obtain ⟨rfl, rfl⟩ := Prod.mk.inj (Option.some.inj hperform)
          exact Or.inr ⟨nofun, rfl⟩

/-- Giving the gate back. -/
theorem agrees_opened (hagrees : h.Agrees s i) :
    h.opened.Agrees (s.setLock (s.gate.release (i, 0)) .gate) i :=
  ⟨nofun, hagrees.main, nofun⟩

/-- Losing the main lock, or giving it back. -/
theorem agrees_lost (hagrees : h.Agrees s i) :
    h.lost.Agrees (s.setLock (s.main.release (i, 0)) .main) i := by
  refine ⟨hagrees.gate, nofun, fun hcleared d hd => ?_⟩
  show (s.main.release (i, 0)).mode d = none
  rw [Lock.mode_release_ne hd]
  exact hagrees.cleared hcleared d hd

/-- What an operation of call `i` leaves to the others: no other description is touched, and the main
lock is taken under the gate. -/
structure Leaves (s s' : BarrierState) (i : Nat) : Prop where
  main : ∀ d, d ≠ (i, 0) → s'.main.mode d = s.main.mode d
  gate : ∀ d, d ≠ (i, 0) → s'.gate.mode d = s.gate.mode d
  taken : s'.main.mode (i, 0) = s.main.mode (i, 0) ∨ s'.main.mode (i, 0) = none ∨
    s.gate.mode (i, 0) ≠ none

theorem Leaves.of_eq (hmain : s'.main = s.main) (hgate : s'.gate = s.gate) : Leaves s s' i :=
  ⟨fun _ _ => by rw [hmain], fun _ _ => by rw [hgate], Or.inl (by rw [hmain])⟩

theorem leaves_release (file : LockFile) :
    Leaves s (s.setLock ((s.lock file).release (i, 0)) file) i := by
  cases file with
  | main => exact ⟨fun d hd => Lock.mode_release_ne hd, fun _ _ => rfl,
      Or.inr (Or.inl Lock.mode_release_self)⟩
  | gate => exact ⟨fun _ _ => rfl, fun d hd => Lock.mode_release_ne hd, Or.inl rfl⟩

/-- **One operation of a disciplined call**: what it holds afterwards is held, and it leaves the
others alone. -/
theorem perform_locks (hagrees : h.Agrees s i) (hpermits : h.Permits me o)
    (hperform : s.perform i o c = some (r, s')) : (h.after o r).Agrees s' i ∧ Leaves s s' i := by
  cases o with
  | flock level file mode blocking =>
      -- A lock is taken or the call changes nothing; the two files differ in what they promise.
      rcases perform_flock hperform with ⟨l, hacquire, rfl, rfl⟩ | ⟨hr, rfl⟩
      · cases file with
        | gate =>
            obtain ⟨rfl, -⟩ := hpermits
            obtain ⟨hself, hothers⟩ := Lock.acquire_mode hacquire
            refine ⟨⟨fun m hm => ?_, hagrees.main, hagrees.cleared⟩, fun _ _ => rfl, hothers,
              Or.inl rfl⟩
            obtain rfl := Option.some.inj hm
            exact hself
        | main =>
            obtain ⟨rfl, hgate, -⟩ := hpermits
            obtain ⟨hself, hothers⟩ := Lock.acquire_mode hacquire
            obtain ⟨m, hm⟩ := Option.isSome_iff_exists.mp hgate
            refine ⟨⟨hagrees.gate, fun m' hm' => ?_, fun hcleared d hd => ?_⟩, hothers,
              fun _ _ => rfl, Or.inr (Or.inr ?_)⟩
            · obtain rfl := Option.some.inj hm'
              exact hself
            -- The main lock was cleared before, or it is taken exclusively now and so nobody else
            -- has it.
            · have hcases : h.cleared = true ∨ mode = .exclusive := by
                simp only [Hold.after, Bool.or_eq_true, Bool.and_eq_true, decide_eq_true_eq]
                  at hcleared
                exact hcleared.imp id And.left
              rcases hcases with hcleared | rfl
              · exact (hothers d hd).trans (hagrees.cleared hcleared d hd)
              · exact Lock.acquire_exclusive hacquire hd
            · rw [hagrees.gate m hm]
              exact nofun
      · refine ⟨?_, .of_eq rfl rfl⟩
        cases file with
        | gate => cases r with
          | granted => exact absurd rfl hr
          | _ => exact hagrees
        | main => cases r with
          | granted => exact absurd rfl hr
          | _ => exact ⟨hagrees.gate, nofun, hagrees.cleared⟩
  -- Unlocking and closing give up what the descriptor held.
  | unlock level file =>
      obtain rfl := hpermits
      obtain ⟨-, rfl⟩ := Prod.mk.inj (Option.some.inj hperform)
      cases file with
      | main => exact ⟨agrees_lost hagrees, leaves_release .main⟩
      | gate => exact ⟨agrees_opened hagrees, leaves_release .gate⟩
  | close level file =>
      obtain rfl := hpermits
      obtain ⟨-, rfl⟩ := Prod.mk.inj (Option.some.inj hperform)
      cases file with
      | main => exact ⟨agrees_lost hagrees, leaves_release .main⟩
      | gate => exact ⟨agrees_opened hagrees, leaves_release .gate⟩
  | openLock level file =>
      cases c <;>
      · obtain ⟨-, rfl⟩ := Prod.mk.inj (Option.some.inj hperform)
        exact ⟨hagrees, .of_eq rfl rfl⟩
  | _ =>
      obtain ⟨-, rfl⟩ := Prod.mk.inj (Option.some.inj hperform)
      exact ⟨⟨hagrees.gate, hagrees.main, hagrees.cleared⟩, .of_eq rfl rfl⟩

theorem fieldsOf_setFields {fields : BarrierFields} {me c : Caller} :
    (s.setFields c fields).fieldsOf me =
      if (me.process, me.self) = (c.process, c.self) then fields else s.fieldsOf me := by
  unfold fieldsOf setFields
  by_cases h : (me.process, me.self) = (c.process, c.self)
  · rw [if_pos h, h, AList.lookup_insert]
    rfl
  · rw [if_neg h, AList.lookup_insert_ne h]

/-- What the registry says of the hold of a call. -/
def Registers (s : BarrierState) (h : Hold) : Prop :=
  ∀ me, h.registered = some me → s.fieldsOf me = ⟨h.depth, some me.thread⟩ ∧
    s.owners.lookup me.process = some (me.self, me.thread)

/-- **What one operation does to the registry**: nothing, or it is the operation of a call registered
before or after it, which is the only entry that changes. -/
theorem perform_registry (hpermits : h.Permits me o)
    (hregisters : s.Registers h) (hperform : s.perform i o c = some (r, s')) :
    (s'.fields = s.fields ∧ s'.owners = s.owners ∧
      (h.after o r).registered = h.registered ∧ (h.after o r).depth = h.depth) ∨
    ((h.registered.isSome ∨ (h.after o r).registered.isSome) ∧
      (h.after o r).cleared = h.cleared ∧ s'.Registers (h.after o r) ∧
      ∀ me', (s'.fieldsOf me').reenters me' = true → (h.after o r).registered = some me' ∨
        ((s.fieldsOf me').reenters me' = true ∧ h.registered ≠ some me')) := by
  have hkey : ∀ {c me' : Caller} {depth : Nat},
      (⟨depth, some c.thread⟩ : BarrierFields).reenters me' = true →
        (me'.process, me'.self) = (c.process, c.self) → me' = c := by
    intro c me' depth hreenters hsame
    obtain ⟨hprocess, hself⟩ := Prod.mk.inj hsame
    have hthread : c.thread = me'.thread := by
      simp only [BarrierFields.reenters, Bool.and_eq_true, decide_eq_true_eq] at hreenters
      exact Option.some.inj hreenters.2
    cases me'
    cases c
    simp_all
  -- the registered instance, at another depth
  have hdepth : ∀ c depth, h.registered = some c →
      (∀ me', h.registered = some me' →
        (s.setFields c { s.fieldsOf c with depth := depth }).fieldsOf me' =
          ⟨depth, some me'.thread⟩ ∧ s.owners.lookup me'.process = some (me'.self, me'.thread)) ∧
      ∀ me', ((s.setFields c { s.fieldsOf c with depth := depth }).fieldsOf me').reenters me' =
        true → h.registered = some me' ∨
          ((s.fieldsOf me').reenters me' = true ∧ h.registered ≠ some me') := by
    intro c depth hc
    obtain ⟨hfields, howner⟩ := hregisters c hc
    refine ⟨fun me' hme' => ?_, fun me' hreenters => ?_⟩
    · obtain rfl := Option.some.inj (hc.symm.trans hme')
      rw [fieldsOf_setFields, if_pos rfl, hfields]
      exact ⟨rfl, howner⟩
    · rw [fieldsOf_setFields] at hreenters
      split at hreenters
      · rename_i hsame
        rw [hfields] at hreenters
        exact Or.inl (hkey hreenters hsame ▸ hc)
      · rename_i hother
        refine Or.inr ⟨hreenters, fun hme' => hother ?_⟩
        rw [Option.some.inj (hc.symm.trans hme')]
  cases o with
  | deepen c =>
      have hc : h.registered = some c := hpermits
      obtain ⟨-, rfl⟩ := Prod.mk.inj (Option.some.inj hperform)
      obtain ⟨hfields, -⟩ := hregisters c hc
      obtain ⟨hregisters', hreenters⟩ := hdepth c (h.depth + 1) hc
      refine Or.inr ⟨Or.inl (by rw [hc]; rfl), rfl, ?_⟩
      rw [hfields] at hregisters' hreenters ⊢
      exact ⟨hregisters', hreenters⟩
  | shallow c =>
      obtain ⟨hc, -⟩ : h.registered = some c ∧ 1 < h.depth := hpermits
      obtain ⟨-, rfl⟩ := Prod.mk.inj (Option.some.inj hperform)
      obtain ⟨hfields, -⟩ := hregisters c hc
      obtain ⟨hregisters', hreenters⟩ := hdepth c (h.depth - 1) hc
      refine Or.inr ⟨Or.inl (by rw [hc]; rfl), rfl, ?_⟩
      rw [hfields] at hregisters' hreenters ⊢
      exact ⟨hregisters', hreenters⟩
  | register c =>
      obtain ⟨rfl, hnone⟩ : c = me ∧ h.registered = none := hpermits
      obtain ⟨-, rfl⟩ := Prod.mk.inj (Option.some.inj hperform)
      refine Or.inr ⟨Or.inr rfl, rfl, fun me' hme' => ?_, fun me' hreenters => ?_⟩
      · obtain rfl := Option.some.inj hme'
        refine ⟨?_, AList.lookup_insert _⟩
        show (s.setFields c ⟨1, some c.thread⟩).fieldsOf c = _
        rw [fieldsOf_setFields, if_pos rfl]
        rfl
      · have hreenters : ((s.setFields c ⟨1, some c.thread⟩).fieldsOf me').reenters me' = true :=
          hreenters
        rw [fieldsOf_setFields] at hreenters
        split at hreenters
        · rename_i hsame
          exact Or.inl (congrArg some (hkey hreenters hsame).symm)
        · exact Or.inr ⟨hreenters, by rw [hnone]; exact nofun⟩
  | unregister c =>
      have hc : h.registered = some c := hpermits
      obtain ⟨-, rfl⟩ := Prod.mk.inj (Option.some.inj hperform)
      refine Or.inr ⟨Or.inl (by rw [hc]; rfl), rfl, nofun, fun me' hreenters => ?_⟩
      have hreenters : ((s.setFields c ⟨0, none⟩).fieldsOf me').reenters me' = true := hreenters
      rw [fieldsOf_setFields] at hreenters
      split at hreenters
      · cases hreenters
      · rename_i hother
        refine Or.inr ⟨hreenters, fun hme' => hother ?_⟩
        rw [Option.some.inj (hc.symm.trans hme')]
  | flock level file mode blocking =>
      refine Or.inl ?_
      rcases perform_flock hperform with ⟨l, -, rfl, rfl⟩ | ⟨hr, rfl⟩
      · cases file <;> exact ⟨rfl, rfl, rfl, rfl⟩
      · cases file <;> cases r <;> exact ⟨rfl, rfl, rfl, rfl⟩
  | unlock level file =>
      obtain ⟨-, rfl⟩ := Prod.mk.inj (Option.some.inj hperform)
      cases file <;> exact Or.inl ⟨rfl, rfl, rfl, rfl⟩
  | close level file =>
      obtain ⟨-, rfl⟩ := Prod.mk.inj (Option.some.inj hperform)
      cases file <;> exact Or.inl ⟨rfl, rfl, rfl, rfl⟩
  | openLock level file =>
      cases c <;>
      · obtain ⟨-, rfl⟩ := Prod.mk.inj (Option.some.inj hperform)
        exact Or.inl ⟨rfl, rfl, rfl, rfl⟩
  | _ =>
      obtain ⟨-, rfl⟩ := Prod.mk.inj (Option.some.inj hperform)
      exact Or.inl ⟨rfl, rfl, rfl, rfl⟩

end BarrierState

/-! ## What the disciplines promise together -/

/-- A call holds what its discipline says, and what is left of its program follows it. -/
structure BarrierCall.Guarded (call : BarrierCall) (h : Hold) (s : BarrierState) (i : Nat) :
    Prop where
  disciplined : Disciplined call.caller (fun _ h => h.registered = none) h call.prog
  performs : call.prog.Only call.request.Performs
  ends : ∀ blocking attempts, call.request = .writer blocking attempts →
    call.prog.After leaves fun o => ¬ enters o
  sound : h.Sound
  agrees : h.Agrees s i
  phase : call.phase = h.phase
  phases : ∀ φ, call.phase = some φ → call.request.phases φ = true
  caller : ∀ me, h.registered = some me → me = call.caller ∧ call.request.isExclusive = true
  registers : s.Registers h

/-- Every call is guarded, and the registry has the entries of the registered calls only. -/
structure BarrierWorld.Guarded (w : BarrierWorld) (hold : Nat → Hold) : Prop where
  calls : ∀ i call, w.calls.lookup i = some call → call.Guarded (hold i) w.state i
  registry : ∀ me, (w.state.fieldsOf me).reenters me = true →
    ∃ i call, w.calls.lookup i = some call ∧ (hold i).registered = some me
  alone : ∀ i j ci cj, w.calls.lookup i = some ci → w.calls.lookup j = some cj →
    ci.request.isExclusive = true → cj.request.isExclusive = true →
      ci.caller.process = cj.caller.process → ci.caller.thread = cj.caller.thread → i = j
  fresh : ∀ i call, w.calls.lookup i = some call → i < w.next

section Together

variable {w w' : BarrierWorld} {hold : Nat → Hold} {i j : Nat} {call other : BarrierCall} {h : Hold}
  {s s' : BarrierState}

/-- An exclusive gate shuts out every other description. -/
theorem BarrierCall.Guarded.gate_none (hcall : call.Guarded h s i) (hcleared : h.cleared = true)
    {d : Nat × Nat} (hd : d ≠ (i, 0)) : s.gate.mode d = none :=
  s.gate.exclusion (i, 0) d (Ne.symm hd) (hcall.agrees.gate _ (hcall.sound.cleared hcleared))

/-- Two cleared calls are one. -/
theorem BarrierCall.Guarded.cleared_unique {h' : Hold} (hcall : call.Guarded h s i)
    (hother : other.Guarded h' s j) (hcleared : h.cleared = true) (hcleared' : h'.cleared = true) :
    i = j := by
  by_contra hne
  have hgate := hother.agrees.gate _ (hother.sound.cleared hcleared')
  rw [hcall.gate_none hcleared (by simpa using Ne.symm hne)] at hgate
  cases hgate

/-- An operation of another call leaves a call guarded. -/
theorem BarrierCall.Guarded.frame (hcall : call.Guarded h s j)
    (hleaves : BarrierState.Leaves s s' i) (hne : j ≠ i)
    (hregisters : s'.Registers h) : call.Guarded h s' j := by
  have hj : (j, 0) ≠ (i, 0) := by simpa using hne
  refine { hcall with agrees := ⟨fun m hm => ?_, fun m hm => ?_, fun hcleared d hd => ?_⟩,
                      registers := hregisters }
  · rw [hleaves.gate _ hj]
    exact hcall.agrees.gate m hm
  · rw [hleaves.main _ hj]
    exact hcall.agrees.main m hm
  · by_cases hdi : d = (i, 0)
    · subst hdi
      -- the main lock was taken under the gate, which is not to be had
      rcases hleaves.taken with hsame | hnone | hgate
      · exact hsame.trans (hcall.agrees.cleared hcleared _ hd)
      · exact hnone
      · exact absurd (hcall.gate_none hcleared hd) hgate
    · rw [hleaves.main _ hdi]
      exact hcall.agrees.cleared hcleared d hd

/-- **Only the responses a call can get**: a thread reenters the hold it is in. -/
theorem BarrierWorld.Guarded.allows (hw : w.Guarded hold) (hcall : w.calls.lookup i = some call)
    {o : BarrierOp} {k : barrierSignature.Resp o → BarrierProg Unit} (hprog : call.prog = .op o k)
    {c : BarrierChoice} {r : barrierSignature.Resp o} {s' : BarrierState}
    (hperform : w.state.perform i o c = some (r, s')) : (hold i).Allows o r := by
  have hguarded := hw.calls i call hcall
  have hdisciplined := hguarded.disciplined
  have hperforms := hguarded.performs
  rw [hprog] at hdisciplined hperforms
  cases o with
  | fields me =>
      obtain ⟨rfl, -⟩ := Prod.mk.inj (Option.some.inj hperform)
      obtain ⟨hprocess, hthread⟩ : me.process = call.caller.process ∧
        me.thread = call.caller.thread := hdisciplined.1
      constructor
      · intro hreenters
        obtain ⟨j, other, hother, hregistered⟩ := hw.registry me hreenters
        obtain ⟨rfl, hexclusive⟩ := (hw.calls j other hother).caller me hregistered
        have hsame : j = i := hw.alone j i other call hother hcall hexclusive hperforms.1 hprocess
          hthread
        exact hsame ▸ hregistered
      · intro hregistered
        obtain ⟨hfields, -⟩ := hguarded.registers me hregistered
        have hdepth := (hguarded.sound.registered (by rw [hregistered]; rfl)).2
        rw [hfields]
        simp [BarrierFields.reenters, hdepth]
  | owner process =>
      obtain ⟨rfl, -⟩ := Prod.mk.inj (Option.some.inj hperform)
      rintro me hregistered rfl
      exact (hguarded.registers me hregistered).2
  | _ => trivial

/-- The call that performed an operation is guarded by what it holds then. -/
theorem BarrierCall.Guarded.run (hcall : call.Guarded h s i) {o : BarrierOp}
    {k : barrierSignature.Resp o → BarrierProg Unit} (hprog : call.prog = .op o k)
    {c : BarrierChoice} {r : barrierSignature.Resp o} (hallows : h.Allows o r)
    (hperform : s.perform i o c = some (r, s')) (hregisters : s'.Registers (h.after o r)) :
    ({ call with prog := k r, phase := o.phase call.phase } : BarrierCall).Guarded (h.after o r)
      s' i := by
  have hdisciplined := hcall.disciplined
  have hperforms := hcall.performs
  have hends := hcall.ends
  rw [hprog] at hdisciplined hperforms hends
  obtain ⟨hsound, hrest⟩ := hdisciplined.2 r hallows
  -- Only `enter` and `leave` change the phase, and the hold follows them.
  have hphase : o.phase call.phase = (h.after o r).phase := by
    rw [hcall.phase]
    cases o with
    | flock level file mode blocking => cases file <;> cases r <;> rfl
    | unlock level file => cases file <;> rfl
    | close level file => cases file <;> rfl
    | _ => rfl
  -- Everything but the phases and the caller is a part of the discipline of the program.
  refine ⟨hrest, hperforms.2 r, fun blocking attempts hrequest => ?_, hsound,
    (BarrierState.perform_locks hcall.agrees hdisciplined.1 hperform).1, hphase,
    fun φ hφ => ?_, fun me hme => ?_, hregisters⟩
  · exact (hends blocking attempts hrequest).2 r
  · cases o with
    | enter ψ =>
        obtain rfl := Option.some.inj hφ
        exact hperforms.1
    | leave => cases hφ
    | _ => exact hcall.phases φ hφ
  · cases o with
    | register c' =>
        obtain rfl := Option.some.inj hme
        exact ⟨hdisciplined.1.1, hperforms.1⟩
    | unregister c' => cases hme
    | flock level file mode blocking =>
        refine hcall.caller me ?_
        cases file <;> cases r <;> exact hme
    | unlock level file =>
        refine hcall.caller me ?_
        cases file <;> exact hme
    | close level file =>
        refine hcall.caller me ?_
        cases file <;> exact hme
    | _ => exact hcall.caller me hme

/-- **One operation keeps every call guarded.** -/
theorem BarrierWorld.Guarded.run (hw : w.Guarded hold) (hcall : w.calls.lookup i = some call)
    {c : BarrierChoice} (hrun : w.runCall i call c = some w') : ∃ hold', w'.Guarded hold' := by
  unfold BarrierWorld.runCall at hrun
  split at hrun
  · cases hrun
  rename_i o k hprog
  obtain ⟨⟨r, s'⟩, hperform, rfl⟩ := Option.map_eq_some_iff.mp hrun
  have hguarded := hw.calls i call hcall
  have hallows := hw.allows hcall hprog hperform
  have hdisciplined := hguarded.disciplined
  rw [hprog] at hdisciplined
  have hleaves := (BarrierState.perform_locks hguarded.agrees hdisciplined.1 hperform).2
  have hregistry := BarrierState.perform_registry hdisciplined.1 hguarded.registers hperform
  have hsound := (hdisciplined.2 r hallows).1
  -- a registered call is cleared, so the others are not
  have hothers : ∀ j other, j ≠ i → w.calls.lookup j = some other → s'.Registers (hold j) := by
    intro j other hne hother me hme
    have hj := hw.calls j other hother
    have hclearedj := (hj.sound.registered (by rw [hme]; rfl)).1
    rcases hregistry with ⟨hfields, howners, -⟩ | ⟨hregistered, hcleared, -⟩
    · unfold BarrierState.fieldsOf
      rw [hfields, howners]
      exact hj.registers me hme
    · have hclearedi : (hold i).cleared = true := by
        rcases hregistered with hbefore | hafter
        · exact (hguarded.sound.registered hbefore).1
        · exact hcleared ▸ (hsound.registered hafter).1
      exact absurd (hj.cleared_unique hguarded hclearedj hclearedi) hne
  have hself : s'.Registers ((hold i).after o r) := by
    rcases hregistry with ⟨hfields, howners, hsame, hdepth⟩ | ⟨-, -, hregisters, -⟩
    · intro me hme
      rw [hsame] at hme
      unfold BarrierState.fieldsOf
      rw [hfields, howners, hdepth]
      exact hguarded.registers me hme
    · exact hregisters
  have hold_call : ∀ j other, (w.calls.insert i { call with
      prog := k r, phase := o.phase call.phase }).lookup j = some other →
        ∃ old, w.calls.lookup j = some old ∧ old.caller = other.caller ∧
          old.request = other.request := by
    intro j other hother
    by_cases hj : j = i
    · subst hj
      rw [AList.lookup_insert] at hother
      obtain rfl := Option.some.inj hother
      exact ⟨call, hcall, rfl, rfl⟩
    · rw [AList.lookup_insert_ne hj] at hother
      exact ⟨other, hother, rfl, rfl⟩
  refine ⟨Function.update hold i ((hold i).after o r), ?_, ?_, ?_, ?_⟩
  · intro j other hother
    by_cases hj : j = i
    · subst hj
      rw [AList.lookup_insert] at hother
      obtain rfl := Option.some.inj hother
      rw [Function.update_self]
      exact hguarded.run hprog hallows hperform hself
    · rw [AList.lookup_insert_ne hj] at hother
      rw [Function.update_of_ne hj]
      exact (hw.calls j other hother).frame hleaves hj (hothers j other hj hother)
  · intro me hreenters
    have hlookup : ∀ j other, w.calls.lookup j = some other → (hold j).registered = some me →
        j ≠ i → ∃ j call', (w.calls.insert i { call with
          prog := k r, phase := o.phase call.phase }).lookup j = some call' ∧
            (Function.update hold i ((hold i).after o r) j).registered = some me := by
      intro j other hother hregistered hj
      refine ⟨j, other, ?_, ?_⟩
      · rwa [AList.lookup_insert_ne hj]
      · rwa [Function.update_of_ne hj]
    have hhere : ((hold i).after o r).registered = some me → ∃ j call', (w.calls.insert i { call with
        prog := k r, phase := o.phase call.phase }).lookup j = some call' ∧
          (Function.update hold i ((hold i).after o r) j).registered = some me := by
      intro hregistered
      refine ⟨i, _, AList.lookup_insert _, ?_⟩
      rwa [Function.update_self]
    rcases hregistry with ⟨hfields, -, hsame, -⟩ | ⟨-, -, -, hentries⟩
    · have hbefore : (w.state.fieldsOf me).reenters me = true := by
        have hreenters : (s'.fieldsOf me).reenters me = true := hreenters
        unfold BarrierState.fieldsOf at hreenters ⊢
        rwa [hfields] at hreenters
      obtain ⟨j, other, hother, hregistered⟩ := hw.registry me hbefore
      by_cases hj : j = i
      · exact hhere (by rw [hsame]; exact hj ▸ hregistered)
      · exact hlookup j other hother hregistered hj
    · rcases hentries me hreenters with hregistered | ⟨hbefore, hnot⟩
      · exact hhere hregistered
      · obtain ⟨j, other, hother, hregistered⟩ := hw.registry me hbefore
        exact hlookup j other hother hregistered fun hj => hnot (hj ▸ hregistered)
  · intro a b ca cb ha hb hea heb hprocess hthread
    obtain ⟨oa, hoa, hca, hra⟩ := hold_call a ca ha
    obtain ⟨ob, hob, hcb, hrb⟩ := hold_call b cb hb
    rw [← hca, ← hcb] at hprocess hthread
    rw [← hra] at hea
    rw [← hrb] at heb
    exact hw.alone a b oa ob hoa hob hea heb hprocess hthread
  · intro j other hother
    obtain ⟨old, hold', -⟩ := hold_call j other hother
    exact hw.fresh j old hold'

/-- The first half of a conversion keeps every call guarded: the writer may lose its main lock. -/
theorem BarrierWorld.Guarded.convert (hw : w.Guarded hold) (hcall : w.calls.lookup i = some call)
    (hconvert : w.convert i call = some w') : ∃ hold', w'.Guarded hold' := by
  unfold BarrierWorld.convert at hconvert
  split at hconvert
  · rename_i level file mode blocking k hprog
    obtain rfl := Option.some.inj hconvert
    have hguarded := hw.calls i call hcall
    have hdisciplined := hguarded.disciplined
    rw [hprog] at hdisciplined
    cases file with
    -- The gate is not held yet, so there is nothing that the conversion could lose.
    | gate =>
        obtain ⟨rfl, hnone⟩ : level = 0 ∧ (hold i).gate = none := hdisciplined.1
        refine ⟨hold, fun j other hother => ?_, hw.registry, hw.alone, hw.fresh⟩
        by_cases hj : j = i
        · subst hj
          obtain rfl := Option.some.inj (hother.symm.trans hcall)
          refine { hguarded with agrees := ⟨fun m hm => ?_, hguarded.agrees.main,
            hguarded.agrees.cleared⟩ }
          rw [hnone] at hm
          cases hm
        · have hj' := hw.calls j other hother
          exact hj'.frame (BarrierState.leaves_release .gate) hj hj'.registers
    -- A conversion first gives the main lock up; from here the hold is the lost one.
    | main =>
        obtain ⟨rfl, hgate, hlost⟩ : level = 0 ∧ (hold i).gate.isSome ∧ (hold i).lost.Sound :=
          hdisciplined.1
        have hnow : w.state.Registers (hold i).lost := hguarded.registers
        refine ⟨Function.update hold i (hold i).lost, fun j other hother => ?_, fun me hreenters => ?_,
          hw.alone, hw.fresh⟩
        · by_cases hj : j = i
          · subst hj
            obtain rfl := Option.some.inj (hother.symm.trans hcall)
            rw [Function.update_self]
            refine { hguarded with
              disciplined := ?_
              sound := hlost
              agrees := BarrierState.agrees_lost hguarded.agrees
              registers := hnow }
            rw [hprog]
            refine ⟨hdisciplined.1, fun r hr => ?_⟩
            -- Whatever the lock call then answers, its hold does not depend on what was lost.
            have hafter : (hold j).lost.after (.flock 0 .main mode blocking) r =
                (hold j).after (.flock 0 .main mode blocking) r := by
              cases r <;> rfl
            rw [hafter]
            exact hdisciplined.2 r hr
          · rw [Function.update_of_ne hj]
            have hj' := hw.calls j other hother
            exact hj'.frame (BarrierState.leaves_release .main) hj hj'.registers
        · obtain ⟨j, other, hother, hregistered⟩ := hw.registry me hreenters
          refine ⟨j, other, hother, ?_⟩
          by_cases hj : j = i
          · subst hj
            rwa [Function.update_self]
          · rwa [Function.update_of_ne hj]
  · cases hconvert

/-- A call that starts holds nothing. -/
theorem BarrierWorld.Guarded.start (hw : w.Guarded hold) {me : Caller} {request : Request}
    (hmay : w.mayStart me request = true) :
    (⟨w.state, w.calls.insert w.next ⟨me, request, request.prog me, none⟩, w.next + 1⟩ :
      BarrierWorld).Guarded (Function.update hold w.next .empty) := by
  have hother : ∀ {j other}, w.calls.lookup j = some other → j ≠ w.next := by
    intro j other hlookup
    exact Nat.ne_of_lt (hw.fresh j other hlookup)
  -- An exclusive section starts only where its thread has none, which is what a call may assume.
  have hfree : ∀ j other, w.calls.lookup j = some other → request.isExclusive = true →
      other.request.isExclusive = true → other.caller.process = me.process →
        other.caller.thread = me.thread → False := by
    intro j other hlookup hexclusive hexclusive' hprocess hthread
    unfold BarrierWorld.mayStart at hmay
    rw [hexclusive, Bool.not_true, Bool.false_or] at hmay
    have hentry := List.all_eq_true.mp hmay ⟨j, other⟩ (AList.mem_lookup_iff.mp hlookup)
    simp [hexclusive', hprocess, hthread] at hentry
  -- The new call holds nothing; every other call holds what it held.
  refine ⟨fun j other hlookup => ?_, fun c hreenters => ?_, ?_, ?_⟩
  · by_cases hj : j = w.next
    · subst hj
      rw [AList.lookup_insert] at hlookup
      obtain rfl := Option.some.inj hlookup
      rw [Function.update_self]
      refine ⟨request.disciplined, request.performs, fun blocking attempts hrequest => ?_,
        .of_quiet nofun rfl rfl, ⟨nofun, nofun, nofun⟩, rfl, nofun, nofun, nofun⟩
      obtain rfl : request = .writer blocking attempts := hrequest
      show (Request.prog me (.writer blocking attempts)).After leaves _
      exact Request.ends
    · rw [AList.lookup_insert_ne hj] at hlookup
      rw [Function.update_of_ne hj]
      exact hw.calls j other hlookup
  · obtain ⟨j, other, hlookup, hregistered⟩ := hw.registry c hreenters
    refine ⟨j, other, ?_, ?_⟩
    · rwa [AList.lookup_insert_ne (hother hlookup)]
    · rwa [Function.update_of_ne (hother hlookup)]
  · intro a b ca cb ha hb hea heb hprocess hthread
    by_cases han : a = w.next
    · by_cases hbn : b = w.next
      · rw [han, hbn]
      · rw [AList.lookup_insert_ne hbn] at hb
        rw [han, AList.lookup_insert] at ha
        obtain rfl := Option.some.inj ha
        exact (hfree b cb hb hea heb hprocess.symm hthread.symm).elim
    · rw [AList.lookup_insert_ne han] at ha
      by_cases hbn : b = w.next
      · rw [hbn, AList.lookup_insert] at hb
        obtain rfl := Option.some.inj hb
        exact (hfree a ca ha heb hea hprocess hthread).elim
      · rw [AList.lookup_insert_ne hbn] at hb
        exact hw.alone a b ca cb ha hb hea heb hprocess hthread
  · intro j other hlookup
    by_cases hj : j = w.next
    · exact hj ▸ Nat.lt_succ_self _
    · rw [AList.lookup_insert_ne hj] at hlookup
      exact Nat.lt_succ_of_lt (hw.fresh j other hlookup)

/-- A call that returned is registered no more. -/
theorem BarrierWorld.Guarded.finish (hw : w.Guarded hold) (hcall : w.calls.lookup i = some call)
    (hdone : call.prog.value?.isSome) :
    ({ w with calls := w.calls.erase i } : BarrierWorld).Guarded hold := by
  have hkept : ∀ {j other}, (w.calls.erase i).lookup j = some other →
      w.calls.lookup j = some other := by
    intro j other hlookup
    by_cases hj : j = i
    · subst hj
      simp at hlookup
    · rwa [AList.lookup_erase_ne hj] at hlookup
  refine ⟨fun j other hlookup => hw.calls j other (hkept hlookup), fun me hreenters => ?_,
    fun a b ca cb ha hb => hw.alone a b ca cb (hkept ha) (hkept hb),
    fun j other hlookup => hw.fresh j other (hkept hlookup)⟩
  obtain ⟨j, other, hlookup, hregistered⟩ := hw.registry me hreenters
  have hj : j ≠ i := by
    rintro rfl
    obtain rfl := Option.some.inj (hlookup.symm.trans hcall)
    have hdisciplined := (hw.calls j other hcall).disciplined
    cases hprog : other.prog with
    | ret value =>
        rw [hprog] at hdisciplined
        rw [show (hold j).registered = none from hdisciplined] at hregistered
        cases hregistered
    | op o k =>
        rw [hprog] at hdone
        cases hdone
  exact ⟨j, other, by rwa [AList.lookup_erase_ne hj], hregistered⟩

/-- A process that dies gives back what its calls hold, and takes its registry along. -/
theorem BarrierWorld.Guarded.kill (hw : w.Guarded hold) (process : Nat) :
    (w.kill process).Guarded hold := by
  -- The calls of the other processes are those that remain.
  have hkept : ∀ {j other}, (w.kill process).calls.lookup j = some other ↔
      w.calls.lookup j = some other ∧ other.caller.process ≠ process := by
    intro j other
    have hfilter : (⟨j, other⟩ : (_ : Nat) × BarrierCall) ∈ (w.kill process).calls.entries ↔
        ⟨j, other⟩ ∈ w.calls.entries ∧ other.caller.process ≠ process := by
      show _ ∈ w.calls.entries.filter _ ↔ _
      rw [List.mem_filter]
      simp
    exact AList.mem_lookup_iff.trans (hfilter.trans (and_congr_left' AList.mem_lookup_iff.symm))
  -- So are their fields: a process that restarts finds the fields of a new object.
  have hfields : ∀ me : Caller, (w.kill process).state.fieldsOf me =
      if me.process = process then ⟨0, none⟩ else w.state.fieldsOf me := by
    intro me
    have hlookup : ∀ f, (w.kill process).state.fields.lookup (me.process, me.self) = some f ↔
        w.state.fields.lookup (me.process, me.self) = some f ∧ me.process ≠ process := by
      intro f
      have hfilter : (⟨(me.process, me.self), f⟩ : (_ : Nat × Nat) × BarrierFields) ∈
          (w.kill process).state.fields.entries ↔
            ⟨(me.process, me.self), f⟩ ∈ w.state.fields.entries ∧ me.process ≠ process := by
        show _ ∈ w.state.fields.entries.filter _ ↔ _
        rw [List.mem_filter]
        simp
      exact AList.mem_lookup_iff.trans (hfilter.trans (and_congr_left' AList.mem_lookup_iff.symm))
    unfold BarrierState.fieldsOf
    split
    · rename_i hdead
      have hnone : (w.kill process).state.fields.lookup (me.process, me.self) = none := by
        rw [Option.eq_none_iff_forall_ne_some]
        exact fun f hf => ((hlookup f).mp hf).2 hdead
      rw [hnone]
      rfl
    · rename_i halive
      congr 1
      exact Option.ext fun f => (hlookup f).trans (and_iff_left halive)
  -- A lock of a process that lives is not among those that are released.
  have hmode : ∀ {j other} (l : Lock (Nat × Nat)), w.calls.lookup j = some other →
      other.caller.process ≠ process →
        (l.releaseAll fun d => w.ofProcess process d.1).mode (j, 0) = l.mode (j, 0) := by
    intro j other l hother halive
    rw [Lock.mode_releaseAll, if_neg]
    simp [BarrierWorld.ofProcess, hother, halive]
  refine ⟨fun j other hlookup => ?_, fun me hreenters => ?_, fun a b ca cb ha hb =>
    hw.alone a b ca cb (hkept.mp ha).1 (hkept.mp hb).1,
    fun j other hlookup => hw.fresh j other (hkept.mp hlookup).1⟩
  · obtain ⟨hother, halive⟩ := hkept.mp hlookup
    have hj := hw.calls j other hother
    refine { hj with agrees := ⟨fun m hm => ?_, fun m hm => ?_, fun hcleared d hd => ?_⟩,
                     registers := fun me hme => ?_ }
    · exact (hmode w.state.gate hother halive).trans (hj.agrees.gate m hm)
    · exact (hmode w.state.main hother halive).trans (hj.agrees.main m hm)
    -- Releasing locks cannot take one, so a cleared main lock stays cleared.
    · show (w.state.main.releaseAll _).mode d = none
      rw [Lock.mode_releaseAll]
      split
      · rfl
      · exact hj.agrees.cleared hcleared d hd
    · obtain ⟨rfl, -⟩ := hj.caller me hme
      rw [hfields, if_neg halive]
      refine ⟨(hj.registers _ hme).1, ?_⟩
      show (w.state.owners.erase process).lookup _ = _
      rw [AList.lookup_erase_ne halive]
      exact (hj.registers _ hme).2
  · rw [hfields] at hreenters
    split at hreenters
    · cases hreenters
    · rename_i halive
      obtain ⟨j, other, hother, hregistered⟩ := hw.registry me hreenters
      obtain ⟨rfl, -⟩ := (hw.calls j other hother).caller me hregistered
      exact ⟨j, other, hkept.mpr ⟨hother, halive⟩, hregistered⟩

/-- **Every step keeps every call guarded.** -/
theorem BarrierWorld.Guarded.step (hw : w.Guarded hold) {m : BarrierMove}
    (hstep : w.step m = some w') : ∃ hold', w'.Guarded hold' := by
  cases m with
  | start me request =>
      simp only [BarrierWorld.step] at hstep
      split at hstep
      · rename_i hmay
        obtain rfl := Option.some.inj hstep
        exact ⟨_, hw.start hmay⟩
      · cases hstep
  | run i c =>
      obtain ⟨call, hcall, hrun⟩ := Option.bind_eq_some_iff.mp hstep
      exact hw.run hcall hrun
  | convert i =>
      obtain ⟨call, hcall, hconvert⟩ := Option.bind_eq_some_iff.mp hstep
      exact hw.convert hcall hconvert
  | finish i =>
      obtain ⟨call, hcall, hfinish⟩ := Option.bind_eq_some_iff.mp hstep
      split at hfinish
      · rename_i hdone
        obtain rfl := Option.some.inj hfinish
        exact ⟨hold, hw.finish hcall hdone⟩
      · cases hfinish
  | kill process =>
      obtain rfl := Option.some.inj hstep
      exact ⟨hold, hw.kill process⟩

theorem BarrierWorld.guarded_init : BarrierWorld.init.Guarded fun _ => .empty :=
  ⟨nofun, nofun, nofun, nofun⟩

end Together

/-! ## The exclusion -/

/-- The phases that exclude every other hold. -/
def HoldPhase.excludes : HoldPhase → Bool
  | .exclusive | .recovery | .handover => true
  | .shared | .publish => false

section Exclusion

variable {w w' : BarrierWorld} {hold : Nat → Hold} {i j : Nat} {ci cj : BarrierCall}

/-- **An excluding phase excludes.** -/
theorem BarrierWorld.Guarded.excludes (hw : w.Guarded hold) (hi : w.calls.lookup i = some ci)
    (hj : w.calls.lookup j = some cj) (hne : i ≠ j) {φ : HoldPhase} (hφ : ci.phase = some φ)
    (hexcludes : φ.excludes = true) : cj.phase = none := by
  have hgi := hw.calls i ci hi
  have hgj := hw.calls j cj hj
  have hcleared : (hold i).cleared = true := by
    have hjustifies := hgi.sound.phase φ (hgi.phase ▸ hφ)
    cases φ with
    | shared => cases hexcludes
    | publish => cases hexcludes
    | _ => exact hjustifies
  cases hψ : cj.phase with
  | none => rfl
  | some ψ =>
      -- the other call would be cleared as well, or hold the main lock
      have hjustifies := hgj.sound.phase ψ (hgj.phase ▸ hψ)
      have hshared : (hold j).main = some .shared → False := by
        intro hmain
        have hmode := hgj.agrees.main _ hmain
        rw [hgi.agrees.cleared hcleared _ (by simpa using Ne.symm hne)] at hmode
        cases hmode
      have hother : (hold j).cleared = true → False := fun hcleared' =>
        hne (hgi.cleared_unique hgj hcleared hcleared')
      cases ψ with
      | shared => exact (hshared hjustifies).elim
      | publish => exact (hshared hjustifies).elim
      | _ => exact (hother hjustifies).elim

/-- The call is over, or its body is. -/
def BarrierWorld.Ended (w : BarrierWorld) (i : Nat) : Prop :=
  i < w.next ∧ ∀ call, w.calls.lookup i = some call →
    call.phase = none ∧ call.prog.Only fun o => ¬ enters o

/-- The call is in the phases of a writer, from its recovery on. -/
def BarrierWorld.Writing (w : BarrierWorld) (i : Nat) : Prop :=
  ∃ call φ, w.calls.lookup i = some call ∧ call.phase = some φ ∧
    ∃ blocking attempts, call.request = .writer blocking attempts

/-- The call of an index after a step is the call before it, after at most one operation. -/
theorem BarrierWorld.step_call {m : BarrierMove} (hstep : w.step m = some w') (hi : i < w.next)
    (hafter : w'.calls.lookup i = some cj) :
    w.calls.lookup i = some cj ∨
      ∃ ci o k, ∃ r : barrierSignature.Resp o, w.calls.lookup i = some ci ∧ ci.prog = .op o k ∧
        cj = { ci with prog := k r, phase := o.phase ci.phase } := by
  -- Only the move that runs the call itself advances it; the others leave it or end it.
  cases m with
  | start me request =>
      simp only [BarrierWorld.step] at hstep
      split at hstep
      · obtain rfl := Option.some.inj hstep
        rw [AList.lookup_insert_ne (Nat.ne_of_lt hi)] at hafter
        exact Or.inl hafter
      · cases hstep
  | run a c =>
      obtain ⟨call, hcall, hrun⟩ := Option.bind_eq_some_iff.mp hstep
      unfold BarrierWorld.runCall at hrun
      split at hrun
      · cases hrun
      rename_i o k hprog
      obtain ⟨⟨r, s'⟩, -, rfl⟩ := Option.map_eq_some_iff.mp hrun
      by_cases hia : i = a
      · subst hia
        rw [AList.lookup_insert] at hafter
        exact Or.inr ⟨call, o, k, r, hcall, hprog, (Option.some.inj hafter).symm⟩
      · rw [AList.lookup_insert_ne hia] at hafter
        exact Or.inl hafter
  | convert a =>
      obtain ⟨call, hcall, hconvert⟩ := Option.bind_eq_some_iff.mp hstep
      unfold BarrierWorld.convert at hconvert
      split at hconvert
      · obtain rfl := Option.some.inj hconvert
        exact Or.inl hafter
      · cases hconvert
  | finish a =>
      obtain ⟨call, hcall, hfinish⟩ := Option.bind_eq_some_iff.mp hstep
      split at hfinish
      · obtain rfl := Option.some.inj hfinish
        by_cases hia : i = a
        · subst hia
          simp at hafter
        · rw [AList.lookup_erase_ne hia] at hafter
          exact Or.inl hafter
      · cases hfinish
  | kill process =>
      obtain rfl := Option.some.inj hstep
      have hentry : (⟨i, cj⟩ : (_ : Nat) × BarrierCall) ∈
          w.calls.entries.filter fun e => e.2.caller.process ≠ process :=
        AList.mem_lookup_iff.mp hafter
      exact Or.inl (AList.mem_lookup_iff.mpr (List.mem_of_mem_filter hentry))

/-- Indices are never given twice. -/
theorem BarrierWorld.step_next {m : BarrierMove} (hstep : w.step m = some w') : w.next ≤ w'.next := by
  cases m with
  | start me request =>
      simp only [BarrierWorld.step] at hstep
      split at hstep
      · obtain rfl := Option.some.inj hstep
        exact Nat.le_succ _
      · cases hstep
  | run a c =>
      obtain ⟨call, -, hrun⟩ := Option.bind_eq_some_iff.mp hstep
      unfold BarrierWorld.runCall at hrun
      split at hrun
      · cases hrun
      obtain ⟨rs, -, rfl⟩ := Option.map_eq_some_iff.mp hrun
      exact le_rfl
  | convert a =>
      obtain ⟨call, -, hconvert⟩ := Option.bind_eq_some_iff.mp hstep
      unfold BarrierWorld.convert at hconvert
      split at hconvert
      · obtain rfl := Option.some.inj hconvert
        exact le_rfl
      · cases hconvert
  | finish a =>
      obtain ⟨call, -, hfinish⟩ := Option.bind_eq_some_iff.mp hstep
      split at hfinish
      · obtain rfl := Option.some.inj hfinish
        exact le_rfl
      · cases hfinish
  | kill process =>
      obtain rfl := Option.some.inj hstep
      exact le_rfl

/-- A body that ended does not start again. -/
theorem BarrierWorld.Ended.step (hended : w.Ended i) {m : BarrierMove}
    (hstep : w.step m = some w') : w'.Ended i := by
  refine ⟨lt_of_lt_of_le hended.1 (BarrierWorld.step_next hstep), fun call hcall => ?_⟩
  rcases BarrierWorld.step_call hstep hended.1 hcall with hbefore | ⟨ci, o, k, r, hci, hprog, rfl⟩
  · exact hended.2 call hbefore
  · obtain ⟨hphase, honly⟩ := hended.2 ci hci
    rw [hprog] at honly
    refine ⟨?_, honly.2 r⟩
    show o.phase ci.phase = none
    cases o with
    | enter φ => exact absurd ⟨φ, rfl⟩ honly.1
    | leave => rfl
    | _ => exact hphase

/-- A writer goes on writing until its body ends. -/
theorem BarrierWorld.Writing.step (hw : w.Guarded hold) (hwriting : w.Writing i) {m : BarrierMove}
    (hstep : w.step m = some w') : w'.Writing i ∨ w'.Ended i := by
  obtain ⟨ci, φ, hci, hφ, blocking, attempts, hrequest⟩ := hwriting
  have hfresh := hw.fresh i ci hci
  cases hafter : w'.calls.lookup i with
  | none =>
      refine Or.inr ⟨lt_of_lt_of_le hfresh (BarrierWorld.step_next hstep), fun call hcall => ?_⟩
      rw [hafter] at hcall
      cases hcall
  | some call =>
      rcases BarrierWorld.step_call hstep hfresh hafter with hbefore | ⟨ci', o, k, r, hci', hprog, rfl⟩
      · obtain rfl := Option.some.inj (hbefore.symm.trans hci)
        exact Or.inl ⟨call, φ, hafter, hφ, blocking, attempts, hrequest⟩
      · obtain rfl := Option.some.inj (hci'.symm.trans hci)
        have hends := (hw.calls i ci' hci').ends blocking attempts hrequest
        rw [hprog] at hends
        cases o with
        | enter ψ => exact Or.inl ⟨_, ψ, hafter, rfl, blocking, attempts, hrequest⟩
        | leave =>
            refine Or.inr ⟨lt_of_lt_of_le hfresh (BarrierWorld.step_next hstep), fun call hcall => ?_⟩
            obtain rfl := Option.some.inj (hafter.symm.trans hcall)
            exact ⟨rfl, hends.1 rfl r⟩
        | _ => exact Or.inl ⟨_, φ, hafter, hφ, blocking, attempts, hrequest⟩

theorem guarded_of_run {tr : List BarrierMove} (hrun : Run barrier tr w) :
    ∃ hold, w.Guarded hold := by
  refine hrun.invariant (I := fun w => ∃ hold, w.Guarded hold) ?_ ?_
  · rintro w rfl
    exact ⟨_, BarrierWorld.guarded_init⟩
  · rintro w m w' ⟨hold, h⟩ hstep
    exact h.step hstep

/-- **Exclusion.** In every reachable state a call in an exclusive hold, in the recovery of a writer or
in its handover is the only call inside a hold. And whenever a writer that is in its recovery is in
its publish phase later on, then at every point in between it is the only call inside a hold, or it
publishes already and no other call is in an excluding phase. -/
theorem commit_barrier_exclusion {tr : List BarrierMove} (hrun : Run barrier tr w) :
    (∀ i j ci cj φ, w.calls.lookup i = some ci → w.calls.lookup j = some cj → i ≠ j →
      ci.phase = some φ → φ.excludes = true → cj.phase = none) ∧
    (∀ i ci w₁ w₂ c₂ between after, w.calls.lookup i = some ci → ci.phase = some .recovery →
      exec BarrierWorld.step w between = some w₁ → exec BarrierWorld.step w₁ after = some w₂ →
        w₂.calls.lookup i = some c₂ → c₂.phase = some .publish →
          ∃ c₁, w₁.calls.lookup i = some c₁ ∧ ∀ j cj, j ≠ i → w₁.calls.lookup j = some cj →
            cj.phase = none ∨ (c₁.phase = some .publish ∧
              ∀ φ, cj.phase = some φ → φ.excludes = false)) := by
  obtain ⟨hold, hw⟩ := guarded_of_run hrun
  refine ⟨fun i j ci cj φ hi hj hne hφ hexcludes => hw.excludes hi hj hne hφ hexcludes, ?_⟩
  intro i ci w₁ w₂ c₂ between after hci hrecovery hbetween hafter hc₂ hpublish
  have hwriter : ∃ blocking attempts, ci.request = .writer blocking attempts := by
    have hphases := (hw.calls i ci hci).phases _ hrecovery
    cases hrequest : ci.request with
    | writer blocking attempts => exact ⟨blocking, attempts, rfl⟩
    | _ =>
        rw [hrequest] at hphases
        cases hphases
  -- between its recovery and its publish phase the writer goes on writing
  have hthen : (∃ hold, w₁.Guarded hold) ∧ (w₁.Writing i ∨ w₁.Ended i) := by
    refine exec_keeps (I := fun w => (∃ hold, w.Guarded hold) ∧ (w.Writing i ∨ w.Ended i)) ?_
      ⟨⟨hold, hw⟩, Or.inl ⟨ci, _, hci, hrecovery, hwriter⟩⟩ hbetween
    rintro s m s' ⟨⟨hold, hs⟩, hwriting | hended⟩ hstep
    · exact ⟨hs.step hstep, hwriting.step hs hstep⟩
    · exact ⟨hs.step hstep, Or.inr (hended.step hstep)⟩
  obtain ⟨⟨hold₁, hw₁⟩, hwriting | hended⟩ := hthen
  · obtain ⟨c₁, φ, hc₁, hφ, blocking, attempts, hrequest⟩ := hwriting
    refine ⟨c₁, hc₁, fun j cj hj hcj => ?_⟩
    have hphases := (hw₁.calls i c₁ hc₁).phases φ hφ
    rw [hrequest] at hphases
    cases φ with
    | shared => cases hphases
    | exclusive => cases hphases
    | publish =>
        refine Or.inr ⟨hφ, fun ψ hψ => ?_⟩
        by_contra hexcludes
        have hnone := hw₁.excludes hcj hc₁ hj hψ (by simpa using hexcludes)
        rw [hφ] at hnone
        cases hnone
    | recovery => exact Or.inl (hw₁.excludes hc₁ hcj (Ne.symm hj) hφ rfl)
    | handover => exact Or.inl (hw₁.excludes hc₁ hcj (Ne.symm hj) hφ rfl)
  · have hended₂ : w₂.Ended i := exec_keeps (I := fun w => w.Ended i)
      (fun s m s' h hstep => h.step hstep) hended hafter
    rw [(hended₂.2 c₂ hc₂).1] at hpublish
    cases hpublish

end Exclusion

/-- A writer enters and recovers. -/
def recoveryRun : List BarrierMove :=
  .start ⟨1, 1, 1⟩ (.writer true 1) :: List.replicate 5 (.run 0 .ok)

/-- An entrant comes to the gate, and the conversion of the writer gives the main lock up; it does not
have it again yet. -/
def handoverMoves : List BarrierMove :=
  .start ⟨2, 1, 1⟩ (.shared true) :: List.replicate 2 (.run 1 .ok) ++ [.run 0 .ok, .convert 0]

/-- The conversion takes the main lock in shared mode, and the writer publishes. -/
def publishMoves : List BarrierMove := List.replicate 2 (.run 0 .ok)

/-- The entrant holds nothing while the writer has the main lock in neither mode. -/
theorem handoverRun_excludes : ∃ w w₁ w₂, Run barrier recoveryRun w ∧
    exec BarrierWorld.step w handoverMoves = some w₁ ∧
    exec BarrierWorld.step w₁ publishMoves = some w₂ ∧ w₁.state.main.mode (0, 0) = none ∧
    ∃ ci c₁ c₂ cj, w.calls.lookup 0 = some ci ∧ ci.phase = some .recovery ∧
      w₁.calls.lookup 0 = some c₁ ∧ c₁.phase = some .handover ∧
      w₂.calls.lookup 0 = some c₂ ∧ c₂.phase = some .publish ∧
      w₁.calls.lookup 1 = some cj ∧ cj.phase = none ∧
      ∀ j cj, j ≠ 0 → w₁.calls.lookup j = some cj → cj.phase = none ∨
        (c₁.phase = some .publish ∧ ∀ φ, cj.phase = some φ → φ.excludes = false) := by
  have hexec : ∃ w, Run barrier recoveryRun w ∧
      ((w.calls.lookup 0).map BarrierCall.phase = some (some .recovery) ∧
        ((exec BarrierWorld.step w handoverMoves).any fun w₁ =>
          (w₁.state.main.mode (0, 0)).isNone &&
          (w₁.calls.lookup 0).map BarrierCall.phase = some (some .handover) &&
          (w₁.calls.lookup 1).isSome &&
          (exec BarrierWorld.step w₁ publishMoves).any fun w₂ =>
            (w₂.calls.lookup 0).map BarrierCall.phase = some (some .publish)) = true) :=
    exists_run_of_exec (by decide +kernel)
  obtain ⟨w, hrun, hrecovers, hthen⟩ := hexec
  obtain ⟨w₁, hbetween, hthen⟩ := (Option.any_eq_true _ _).mp hthen
  simp only [Bool.and_eq_true, decide_eq_true_eq, Option.isNone_iff_eq_none] at hthen
  obtain ⟨⟨⟨hlost, hhands⟩, hentrant⟩, hthen⟩ := hthen
  obtain ⟨w₂, hafter, hpublishes⟩ := (Option.any_eq_true _ _).mp hthen
  obtain ⟨ci, hci, hrecovery⟩ := Option.map_eq_some_iff.mp hrecovers
  obtain ⟨c₁, hc₁, hhandover⟩ := Option.map_eq_some_iff.mp hhands
  obtain ⟨c₂, hc₂, hpublish⟩ := Option.map_eq_some_iff.mp (of_decide_eq_true hpublishes)
  obtain ⟨cj, hcj⟩ := Option.isSome_iff_exists.mp hentrant
  obtain ⟨-, hconverts⟩ := commit_barrier_exclusion hrun
  obtain ⟨c, hc, hothers⟩ :=
    hconverts 0 ci w₁ w₂ c₂ handoverMoves publishMoves hci hrecovery hbetween hafter hc₂ hpublish
  obtain rfl := Option.some.inj (hc₁.symm.trans hc)
  have hnone : cj.phase = none := (commit_barrier_exclusion (hrun.exec hbetween)).1 0 1 c₁ cj
    .handover hc₁ hcj (by decide) hhandover rfl
  exact ⟨w, w₁, w₂, hrun, hbetween, hafter, hlost, ci, c₁, c₂, cj, hci, hrecovery, hc₁, hhandover,
    hc₂, hpublish, hcj, hnone, hothers⟩

end Milhouse
