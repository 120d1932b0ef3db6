import Milhouse.Spool.Held

/-!
# Milhouse — a quarantine move keeps published bytes

A move may be of the publication itself. Its copy is then durable and certified before the source is
unlinked (`Placed`), and a copy that is cleaned up again was never the last one: its name was free
when it was linked, so whatever held the bytes before still does (`HeldBut`).

* **`moveToQuarantine_held`** — every move keeps published bytes held at every point.
-/

namespace Milhouse

open Disk Interaction Interaction.Prog

/-- The promise of published bytes. -/
def held (fmt : SegmentFormat) (k : Publication) : Promise spoolHandler Calm where
  alive := Held k
  ended s := Expired fmt k.content s.history
  alive_rely := HeldBut.calm
  ended_rely h hcalm := h.mono hcalm.history
  ended_step h hstep := h.mono (SpoolState.perform_change hstep).history

/-- A program that keeps published bytes held. -/
abbrev HeldSafe {α : Type} (fmt : SegmentFormat) (k : Publication) (p : SpoolProg α)
    (Q : α → SpoolState → Prop) (s : SpoolState) : Prop := p.Keeps (held fmt k) Q s

section Rules

variable {fmt : SegmentFormat} {k : Publication} {x : Option String} {s : SpoolState} {α β : Type}

/-- A program that returns keeps the segment held if it was held. -/
theorem heldSafe_ret {r : α} {Q : α → SpoolState → Prop} (h : HeldBut k x s) (hQ : Q r s) :
    HeldSafe fmt k (.ret r) Q s := Keeps.ret h.held hQ

/-- The rule of one operation that spares the bytes. -/
theorem heldSafe_op {o : SpoolOp} {f : o.Resp → SpoolProg α} {Q : α → SpoolState → Prop}
    (h : HeldBut k x s)
    (hf : ∀ s₁, Calm s s₁ → HeldBut k x s₁ → ∀ c r s', s₁.perform o c = some (r, s') →
      Spares k x s₁ o ∧ (HeldBut k x s' → HeldSafe fmt k (f r) Q s')) :
    HeldSafe fmt k (call (Γ := spoolSignature) o >>= f) Q s := by
  refine Keeps.op h.held fun s₁ hcalm _ c r s' hstep => ?_
  have h₁ := h.calm hcalm
  obtain ⟨hspares, hk⟩ := hf s₁ hcalm h₁ c r s' hstep
  have h' := h₁.change hspares (SpoolState.perform_change hstep)
  exact Or.inr ⟨h'.held, hk h'⟩

/-- The rule of one operation that only reads. -/
theorem heldSafe_observe {o : SpoolOp} {f : o.Resp → SpoolProg α} {Q : α → SpoolState → Prop}
    (h : HeldBut k x s) (ho : o.observes)
    (hf : ∀ s₁, Calm s s₁ → ∀ c r s', s₁.perform o c = some (r, s') → Calm s s' →
      HeldBut k x s' → HeldSafe fmt k (f r) Q s') :
    HeldSafe fmt k (call (Γ := spoolSignature) o >>= f) Q s := by
  refine heldSafe_op h fun s₁ hcalm _ c r s' hstep => ⟨by cases o <;> trivial, fun h' => ?_⟩
  exact hf s₁ hcalm c r s' hstep
    (hcalm.trans (calm_of_observes ho (SpoolState.perform_change hstep))) h'

/-- A call is safe if it spares the segment in every state that calm steps of others can lead to. -/
theorem heldSafe_call {o : SpoolOp} {Q : o.Resp → SpoolState → Prop} (h : HeldBut k x s)
    (hf : ∀ s₁, Calm s s₁ → HeldBut k x s₁ → ∀ c r s', s₁.perform o c = some (r, s') →
      Spares k x s₁ o ∧ (HeldBut k x s' → Q r s')) :
    HeldSafe fmt k (call (Γ := spoolSignature) o) Q s := by
  refine Keeps.call h.held fun s₁ hcalm _ c r s' hstep => ?_
  have h₁ := h.calm hcalm
  obtain ⟨hspares, hQ⟩ := hf s₁ hcalm h₁ c r s' hstep
  have h' := h₁.change hspares (SpoolState.perform_change hstep)
  exact Or.inr ⟨h'.held, hQ h'⟩

/-- A program whose operations spare the bytes in every state. -/
theorem heldSafe_of_only {O : SpoolOp → Prop} {p : SpoolProg α} (hp : p.Only O)
    (hO : ∀ t o, O o → Spares k none t o) (h : Held k s) :
    HeldSafe fmt k p (fun _ _ => True) s :=
  Keeps.of_only hp (fun t o _ _ _ ho ha hstep =>
    HeldBut.change ha (hO t o ho) (SpoolState.perform_change hstep)) h

/-- A program that only reads. -/
theorem heldSafe_of_observes {p : SpoolProg α} (hp : p.Only SpoolOp.observes) (h : HeldBut k x s) :
    HeldSafe fmt k p (fun _ t => Calm s t ∧ HeldBut k x t) s := by
  refine (Safe.of_only hp (I := fun t => Calm s t ∧ HeldBut k x t) ?_ ?_ ⟨.refl s, h⟩).mono
    fun _ _ ht => Or.inr ⟨ht.2.held, ht⟩
  · exact fun t t' ht hcalm => ⟨ht.1.trans hcalm, ht.2.calm hcalm⟩
  · intro t o c r t' ho ht hstep
    have hcalm := calm_of_observes ho (SpoolState.perform_change hstep)
    have h' := ht.2.calm hcalm
    exact ⟨fun _ => Or.inl h'.held, ht.1.trans hcalm, h'⟩

end Rules

/-! ## The copy -/

section Copy

variable {fmt : SegmentFormat} {k : Publication} {x : Option String} {s s' : SpoolState}
  {candidate digest : String}

/-- Every listing of the quarantine day has a candidate with this digest. -/
def Placed (fmt : SegmentFormat) (day : Day) (candidate digest : String) (s : SpoolState) : Prop :=
  (s.dir .quarantine day).All fun l =>
    ∃ f, l.lookup candidate = some f ∧ fmt.sha256 f.content = digest

/-- A placed copy stays where it is under calm steps of others. -/
theorem Placed.calm (h : Placed fmt k.day candidate digest s) (hcalm : Calm s s') :
    Placed fmt k.day candidate digest s' :=
  hcalm.all (fun _ _ hgrow ⟨f, hf, hdigest⟩ => ⟨f, hgrow _ _ hf, hdigest⟩) h

/-- A certified target has the digest. -/
theorem certifyTarget_held {tree : Tree} {name : String} (h : HeldBut k x s) :
    HeldSafe fmt k (certifyTarget fmt k.day tree name digest)
      (fun r t => Calm s t ∧ HeldBut k x t ∧ ∀ snapshot, r = some snapshot →
        ∃ f, t.file ⟨tree, k.day, name⟩ = some f ∧ fmt.sha256 f.content = digest) s := by
  unfold certifyTarget certifyLeaf
  refine Keeps.seq (M := fun r t => Calm s t ∧ HeldBut k x t ∧ ∀ snapshot found,
    r = some (snapshot, found) →
      ∃ f, t.file ⟨tree, k.day, name⟩ = some f ∧ fmt.sha256 f.content = found) ?_ ?_
  · refine heldSafe_observe h trivial fun s₁ _ c r s₂ hstep hcalm h' => ?_
    have hnone : HeldSafe fmt k (.ret (none : Option (Snapshot × String)))
        (fun r t => Calm s t ∧ HeldBut k x t ∧ ∀ snapshot found, r = some (snapshot, found) →
          ∃ f, t.file ⟨tree, k.day, name⟩ = some f ∧ fmt.sha256 f.content = found) s₂ :=
      heldSafe_ret h' ⟨hcalm, h', fun _ _ h => by cases h⟩
    obtain ⟨rfl, hr⟩ := SpoolState.perform_readFile hstep
    rcases r with e | f
    · exact hnone
    · dsimp only
      split
      · refine heldSafe_ret h' ⟨hcalm, h', fun snapshot found heq => ?_⟩
        obtain ⟨rfl, rfl⟩ := Prod.mk.inj (Option.some.inj heq)
        have hopened : s₂.opened ⟨tree, k.day, name⟩ = .ok f := by
          rcases hr with hr | hr
          · exact hr.symm
          · cases hr
        obtain ⟨g, hg, hcontent, -⟩ := SpoolState.opened_ok hopened
        exact ⟨g, hg, by rw [hcontent]⟩
      · exact hnone
  · rintro r t _ ⟨hcalm, h', hfile⟩
    rcases r with _ | ⟨snapshot, found⟩
    · exact heldSafe_ret h' ⟨hcalm, h', fun _ h => by cases h⟩
    · refine heldSafe_ret h' ⟨hcalm, h', fun snapshot' heq => ?_⟩
      obtain ⟨f, hf, hdigest⟩ := hfile snapshot found rfl
      split at heq
      · rename_i hfound
        exact ⟨f, hf, hdigest.trans hfound⟩
      · cases heq

/-- Cleaning up a candidate that does not count. -/
theorem cleanupCandidate_held {expected : Snapshot} (h : HeldBut k (some candidate) s) :
    HeldSafe fmt k (cleanupCandidate fmt k.day candidate digest expected)
      (fun _ t => HeldBut k (some candidate) t) s := by
  unfold cleanupCandidate
  refine (certifyTarget_held h).seq fun found t _ ⟨_, h', _⟩ => ?_
  split
  · exact heldSafe_ret h' h'
  · refine heldSafe_op h' fun s₁ _ _ c unlinked s₂ _ =>
      ⟨Or.inr (Or.inr ⟨rfl, rfl⟩), fun h₂ => ?_⟩
    split
    · exact heldSafe_ret h₂ h₂
    · refine heldSafe_op h₂ fun s₃ _ _ c synced s₄ _ => ⟨trivial, fun h₄ => ?_⟩
      split
      · exact heldSafe_ret h₄ h₄
      · refine heldSafe_observe h₄ trivial fun s₅ _ c r s₆ _ _ h₆ => ?_
        rcases r with (_ | _ | _) | _ <;> exact heldSafe_ret h₆ h₆

/-- The error path of a copy keeps the segment held, its own candidate excepted, and places nothing.
-/
theorem copyFailed_held {published : Option Snapshot} (h : HeldBut k (some candidate) s) :
    HeldSafe fmt k (copyFailed fmt k.day candidate digest published)
      (fun r t => HeldBut k (some candidate) t ∧ ∀ snapshot, r ≠ .placed snapshot) s := by
  unfold copyFailed
  refine heldSafe_observe h trivial fun s₁ _ c live s₂ _ _ h₂ => ?_
  split
  · exact heldSafe_ret h₂ ⟨h₂, nofun⟩
  · cases published with
    | none => exact heldSafe_ret h₂ ⟨h₂, nofun⟩
    | some snapshot =>
        refine (cleanupCandidate_held h₂).seq fun cleaned t _ h' => ?_
        refine heldSafe_ret h' ⟨h', fun snapshot => ?_⟩
        split <;> exact nofun

/-- A certified publication of the copy is durable under its candidate name. -/
theorem certifyPublished_held {snapshot : Snapshot} {f : File} (h : HeldBut k (some candidate) s)
    (hf : (s.dir .quarantine k.day).All fun l => l.lookup candidate = some f) :
    HeldSafe fmt k (certifyPublished fmt k.day candidate digest snapshot)
      (fun r t => HeldBut k (some candidate) t ∧
        ∀ snapshot, r = .placed snapshot → Placed fmt k.day candidate digest t) s := by
  have hclean : ∀ t, HeldBut k (some candidate) t →
      HeldSafe fmt k (do
        let cleaned ← cleanupCandidate fmt k.day candidate digest snapshot
        pure (if cleaned then CopyOutcome.failed else CopyOutcome.uncertain))
        (fun r t => HeldBut k (some candidate) t ∧
          ∀ snapshot, r = .placed snapshot → Placed fmt k.day candidate digest t) t := by
    intro t ht
    refine (cleanupCandidate_held ht).seq fun cleaned u _ h' => ?_
    refine heldSafe_ret h' ⟨h', fun snapshot heq => ?_⟩
    split at heq <;> cases heq
  unfold certifyPublished
  refine (certifyTarget_held h).seq fun found t _ hcertified => ?_
  obtain ⟨hcalm, h', hfile⟩ := hcertified
  split
  · exact hclean t h'
  · rename_i hfound
    obtain ⟨found, rfl⟩ := Option.ne_none_iff_exists'.mp hfound
    have hplaced : Placed fmt k.day candidate digest t := by
      obtain ⟨g, hg, hdigest⟩ := hfile found rfl
      have hall := hcalm.all (P := fun l => l.lookup candidate = some f)
        (fun _ _ hgrow hl => hgrow _ _ hl) hf
      intro l hl
      refine ⟨f, hall l hl, ?_⟩
      rw [SpoolState.file, hall.current] at hg
      rw [Option.some.inj hg, hdigest]
    split
    · exact heldSafe_ret h' ⟨h', fun _ heq => by cases heq⟩
    · refine (heldSafe_of_observes (certifyLiveTarget_only.mono fun _ => observes_of_lookOp)
        h').seq fun live u _ hlive => ?_
      obtain ⟨hcalmᵤ, hᵤ⟩ := hlive
      refine heldSafe_observe hᵤ trivial fun s₁ _ c bound v _ hcalmᵥ hᵥ => ?_
      split
      · exact hclean v hᵥ
      · split
        · exact heldSafe_ret hᵥ ⟨hᵥ, fun _ heq => by cases heq⟩
        · exact heldSafe_ret hᵥ ⟨hᵥ, fun _ _ => (hplaced.calm hcalmᵤ).calm hcalmᵥ⟩

/-- Unlinking the copy's staging name leaves the bytes and the candidate. -/
theorem dropStage_held (h : HeldBut k x s) (hcandidate : candidate ≠ quarantineStage) :
    HeldSafe fmt k (dropStage k.day) (fun _ t => HeldBut k x t ∧
      ∀ f, s.file ⟨.quarantine, k.day, candidate⟩ = some f →
        t.file ⟨.quarantine, k.day, candidate⟩ = some f) s := by
  refine heldSafe_call h fun s₁ hcalm _ c r s' hstep =>
    ⟨Or.inl (Or.inr (Or.inr ⟨rfl, rfl⟩)), fun h' => ⟨h', fun f hf => ?_⟩⟩
  have hf₁ := hcalm.file hf
  cases SpoolState.perform_change hstep with
  | same => exact hf₁
  | unlink p g _ =>
      rw [SpoolState.file_remove_ne _ fun heq => hcandidate (Path.mk.inj heq).2.2]
      exact hf₁

/-- **The copy is linked to a name that was free**, so whatever held the bytes before still does;
once certified it is durable. -/
theorem linkStaged_held (h : Held k s) (hcandidate : candidate ≠ quarantineStage) :
    HeldSafe fmt k (linkStaged fmt k.day candidate digest) (fun r t => Held k t ∧
      ∀ snapshot, r = .placed snapshot →
        HeldBut k (some candidate) t ∧ Placed fmt k.day candidate digest t) s := by
  have hweaken : ∀ {p : SpoolProg CopyOutcome} {t : SpoolState},
      HeldSafe fmt k p (fun r u => HeldBut k (some candidate) u ∧
        ∀ snapshot, r = .placed snapshot → Placed fmt k.day candidate digest u) t →
      HeldSafe fmt k p (fun r u => Held k u ∧ ∀ snapshot, r = .placed snapshot →
        HeldBut k (some candidate) u ∧ Placed fmt k.day candidate digest u) t :=
    fun hp => hp.mono fun r u hu => ⟨hu.1.held, fun snapshot hr => ⟨hu.1, hu.2 snapshot hr⟩⟩
  have hfail : ∀ {published : Option Snapshot} {t : SpoolState}, HeldBut k (some candidate) t →
      HeldSafe fmt k (copyFailed fmt k.day candidate digest published)
        (fun r u => HeldBut k (some candidate) u ∧
          ∀ snapshot, r = .placed snapshot → Placed fmt k.day candidate digest u) t :=
    fun ht => (copyFailed_held ht).mono fun r u hu =>
      ⟨hu.1, fun snapshot hr => absurd hr (hu.2 snapshot)⟩
  unfold linkStaged
  refine Keeps.op h fun s₁ hcalm (h₁ : Held k s₁) c linked s₂ hstep => Or.inr ?_
  have h₂ : Held k s₂ := HeldBut.change (x := none) h₁
    (o := .link .quarantine k.day quarantineStage candidate) trivial
    (SpoolState.perform_change hstep)
  refine ⟨h₂, ?_⟩
  have hdrop : ∀ outcome : CopyOutcome, (∀ snapshot, outcome ≠ .placed snapshot) →
      HeldSafe fmt k (do let _ ← dropStage k.day; pure outcome) (fun r u => Held k u ∧
        ∀ snapshot, r = .placed snapshot →
          HeldBut k (some candidate) u ∧ Placed fmt k.day candidate digest u) s₂ := by
    intro outcome hne
    refine (dropStage_held h₂ hcandidate).seq fun _ t _ ⟨h', _⟩ => ?_
    exact heldSafe_ret h' ⟨h'.held, fun snapshot hr => absurd hr (hne snapshot)⟩
  rcases linked with _ | _ | _ | _
  · -- the candidate was free: it does not count
    obtain ⟨f, hfree, rfl⟩ := SpoolState.perform_link hstep
    have hbut : HeldBut k (some candidate) (s₁.put ⟨.quarantine, k.day, candidate⟩ f) :=
      (h₁.but hfree).put (spared_of_absent hfree)
    refine hweaken ?_
    refine (dropStage_held hbut hcandidate).seq fun dropped s₃ _ ⟨h₃, hfile₃⟩ => ?_
    have hf₃ := hfile₃ f (SpoolState.file_put_self _ _ _)
    refine heldSafe_observe h₃ trivial fun s₄ _ c r s₅ _ hcalm₅ h₅ => ?_
    rcases r with e | g
    · exact hfail h₅
    · dsimp only
      split
      · exact (dropStage_held h₅ hcandidate).seq fun _ t _ ⟨h', _⟩ => hfail h'
      · refine heldSafe_op h₅ fun s₆ hcalm₆ _ c synced s₇ hstep₇ => ⟨trivial, fun h₇ => ?_⟩
        cases synced with
        | false =>
            rw [if_pos (by rfl)]
            exact hfail h₇
        | true =>
            obtain rfl := SpoolState.perform_syncDir hstep₇
            refine certifyPublished_held (f := f) h₇ ?_
            rw [SpoolState.dir_syncDir, if_pos rfl, Dir.all_sync]
            exact hcalm₆.file (hcalm₅.file hf₃)
  · exact hdrop .exists nofun
  · exact hdrop .failed nofun
  · exact hdrop .failed nofun

/-- Publishing a copy keeps the segment held, and a copy that is reported placed has the digest
asked for. -/
theorem publishCopy_held {content : Bytes} (h : Held k s) (hcandidate : candidate ≠ quarantineStage) :
    HeldSafe fmt k (publishCopy fmt k.day candidate content digest) (fun r t => Held k t ∧
      ∀ snapshot, r = .placed snapshot →
        HeldBut k (some candidate) t ∧ Placed fmt k.day candidate digest t) s := by
  have hdrop : ∀ t, Held k t → HeldSafe fmt k (do let _ ← dropStage k.day; pure CopyOutcome.failed)
      (fun r u => Held k u ∧ ∀ snapshot, r = .placed snapshot →
        HeldBut k (some candidate) u ∧ Placed fmt k.day candidate digest u) t := by
    intro t ht
    refine (dropStage_held ht hcandidate).seq fun _ u _ ⟨h', _⟩ => ?_
    exact heldSafe_ret h' ⟨h'.held, nofun⟩
  unfold publishCopy
  refine heldSafe_observe h trivial fun s₁ _ c live s₂ _ _ h₂ => ?_
  split
  · exact heldSafe_ret h₂ ⟨h₂.held, nofun⟩
  · refine heldSafe_op h₂ fun s₃ _ _ c create s₄ _ => ⟨trivial, fun h₄ => ?_⟩
    rcases create with _ | _ | _
    · exact linkStaged_held h₄ hcandidate
    · refine (dropStage_held h₄ hcandidate).seq fun cleared s₅ _ ⟨h₅, _⟩ => ?_
      split
      · exact heldSafe_ret h₅ ⟨h₅.held, nofun⟩
      · refine heldSafe_op h₅ fun s₆ _ _ c again s₇ _ => ⟨trivial, fun h₇ => ?_⟩
        rcases again with _ | _ | _
        · exact linkStaged_held h₇ hcandidate
        · exact heldSafe_ret h₇ ⟨h₇.held, nofun⟩
        · exact hdrop _ h₇
    · exact hdrop _ h₄

/-- An adopted candidate is durable. -/
theorem adoptExisting_held (h : Held k s) :
    HeldSafe fmt k (adoptExisting fmt k.day candidate digest) (fun r t => Held k t ∧
      ∀ snapshot, r = .adopted snapshot → Placed fmt k.day candidate digest t) s := by
  -- Every outcome but the adoption promises nothing.
  have hret : ∀ {outcome : AdoptOutcome} {t : SpoolState}, HeldBut k none t →
      (∀ snapshot, outcome ≠ .adopted snapshot) →
      HeldSafe fmt k (.ret outcome) (fun r u => Held k u ∧
        ∀ snapshot, r = .adopted snapshot → Placed fmt k.day candidate digest u) t :=
    fun ht hne => heldSafe_ret ht ⟨ht, fun snapshot hr => absurd hr (hne snapshot)⟩
  unfold adoptExisting
  refine heldSafe_observe h trivial fun s₁ _ c live s₂ _ _ h₂ => ?_
  split
  · exact hret h₂ nofun
  · refine heldSafe_observe h₂ trivial fun s₃ _ c r s₄ hstep₄ _ h₄ => ?_
    obtain ⟨rfl, hr⟩ := SpoolState.perform_readFile hstep₄
    rcases r with (_ | _ | _) | f
    · exact hret h₄ nofun
    · exact hret h₄ nofun
    · exact hret h₄ nofun
    · have hopened : s₄.opened ⟨.quarantine, k.day, candidate⟩ = .ok f := by
        rcases hr with hr | hr
        · exact hr.symm
        · cases hr
      obtain ⟨g, hg, hcontent, -⟩ := SpoolState.opened_ok hopened
      dsimp only
      split
      · exact hret h₄ nofun
      · split
        · exact hret h₄ nofun
        · rename_i hdigest
          -- The bytes under the name have the digest that was asked for; the sync makes the name
          -- durable.
          refine heldSafe_op h₄ fun s₅ hcalm₅ _ c synced s₆ hstep₆ => ⟨trivial, fun h₆ => ?_⟩
          cases synced with
          | false => exact hret h₆ nofun
          | true =>
              obtain rfl := SpoolState.perform_syncDir hstep₆
              have hplaced : Placed fmt k.day candidate digest
                  (s₅.syncDir .quarantine k.day) := by
                unfold Placed
                rw [SpoolState.dir_syncDir, if_pos rfl, Dir.all_sync]
                refine ⟨g, hcalm₅.file hg, ?_⟩
                rw [hcontent]
                exact not_not.mp hdigest
              -- The last certification only looks, and the copy stays placed meanwhile.
              refine (heldSafe_of_observes
                (certifyLiveTarget_only.mono fun _ => observes_of_lookOp) h₆).seq
                fun found u _ ⟨hcalmᵤ, hᵤ⟩ => ?_
              exact heldSafe_ret hᵤ ⟨hᵤ, fun _ _ => hplaced.calm hcalmᵤ⟩

/-- What the candidate loop promises of the copy it places. -/
def PlacedCopy.Good (fmt : SegmentFormat) (k : Publication) (digest : String) (copy : PlacedCopy)
    (s : SpoolState) : Prop :=
  copy.candidate ≠ quarantineStage ∧ Placed fmt k.day copy.candidate digest s ∧
    (copy.created = true → HeldBut k (some copy.candidate) s)

/-- Over all its numbered attempts a placement keeps the segment held and ends in a good copy or in
none. -/
theorem placeCopy_held {base : String} {content : Bytes} {attempt remaining : Nat} (h : Held k s) :
    HeldSafe fmt k (placeCopy fmt k.day base content digest attempt remaining)
      (fun r t => Held k t ∧ ∀ copy, r = .placed copy → copy.Good fmt k digest t) s := by
  have hret : ∀ {outcome : PlaceOutcome} {t : SpoolState}, Held k t →
      (∀ copy, outcome ≠ .placed copy) →
      HeldSafe fmt k (.ret outcome)
        (fun r u => Held k u ∧ ∀ copy, r = .placed copy → copy.Good fmt k digest u) t :=
    fun ht hne => heldSafe_ret ht ⟨ht, fun copy hr => absurd hr (hne copy)⟩
  induction remaining generalizing attempt s with
  | zero => exact hret h fun _ heq => by cases heq
  | succ remaining ih =>
      unfold placeCopy
      generalize (if attempt = 0 then base else toString attempt ++ "." ++ base) = candidate
      dsimp only
      split
      · exact ih h
      · rename_i hcandidate
        -- an adopted copy is durable and never cleaned up again
        have hadopted : ∀ {snapshot : Snapshot} {t : SpoolState}, Held k t →
            Placed fmt k.day candidate digest t →
            HeldSafe fmt k (.ret (PlaceOutcome.placed ⟨candidate, snapshot, false⟩))
              (fun r u => Held k u ∧ ∀ copy, r = .placed copy → copy.Good fmt k digest u) t := by
          intro snapshot t ht hplaced
          refine heldSafe_ret ht ⟨ht, fun copy hr => ?_⟩
          obtain rfl := PlaceOutcome.placed.inj hr
          exact ⟨hcandidate, hplaced, fun hcreated => by cases hcreated⟩
        refine (publishCopy_held h hcandidate).seq fun published t ht hpublished => ?_
        rcases published with snapshot | _ | _ | _
        · obtain ⟨hbut, hplaced⟩ := hpublished.2 snapshot rfl
          refine heldSafe_ret hbut ⟨hbut.held, fun copy hr => ?_⟩
          obtain rfl := PlaceOutcome.placed.inj hr
          exact ⟨hcandidate, hplaced, fun _ => hbut⟩
        · refine (adoptExisting_held ht).seq fun verdict u hu hplaced => ?_
          rcases verdict with snapshot | _ | _ | _
          · exact hadopted hu (hplaced.2 snapshot rfl)
          · exact ih hu
          · exact ih hu
          · exact hret hu fun _ heq => by cases heq
        · refine (adoptExisting_held ht).seq fun verdict u hu hplaced => ?_
          rcases verdict with snapshot | _ | _ | _
          · exact hadopted hu (hplaced.2 snapshot rfl)
          · exact hret hu fun _ heq => by cases heq
          · exact hret hu fun _ heq => by cases heq
          · exact hret hu fun _ heq => by cases heq
        · exact hret ht fun _ heq => by cases heq

end Copy

/-! ## The source -/

section Source

variable {fmt : SegmentFormat} {k : Publication} {s s' : SpoolState} {digest name : String}
  {snapshot : Snapshot} {copy : PlacedCopy}

/-- The pending leaf has the digest of the move. -/
def SourceFile (fmt : SegmentFormat) (day : Day) (digest name : String) (s : SpoolState) : Prop :=
  ∃ f, s.file ⟨.pending, day, name⟩ = some f ∧ fmt.sha256 f.content = digest

/-- The source of a move keeps its bytes under calm steps of others. -/
theorem SourceFile.calm {day : Day} (h : SourceFile fmt day digest name s) (hcalm : Calm s s') :
    SourceFile fmt day digest name s' := by
  obtain ⟨f, hf, hdigest⟩ := h
  exact ⟨f, hcalm.file hf, hdigest⟩

/-- Copying leaves the source alone. -/
theorem SourceFile.copyOp {day : Day} (h : SourceFile fmt day digest name s) {o : SpoolOp}
    (ho : CopyOp day o) (hchange : SpoolState.Change s o s') :
    SourceFile fmt day digest name s' := by
  obtain ⟨f, hf, hdigest⟩ := h
  refine ⟨f, ?_, hdigest⟩
  have hne : ∀ {p : Path}, p.tree = .quarantine → (⟨.pending, day, name⟩ : Path) ≠ p := by
    rintro p htree rfl
    cases htree
  cases hchange with
  | same => exact hf
  | create p content written _ _ =>
      exact (SpoolState.file_put_ne s _ (hne ho.1)).trans hf
  | link tree d src dst g _ _ => exact (SpoolState.file_put_ne s _ (hne ho.1)).trans hf
  | unlink p g _ => exact (SpoolState.file_remove_ne s (hne ho.1)).trans hf
  | sync tree d => exact (SpoolState.file_syncDir s tree d _).trans hf
  | _ => exact ho.elim

/-- A good copy stays good under calm steps of others. -/
theorem PlacedCopy.Good.calm (h : copy.Good fmt k digest s) (hcalm : Calm s s') :
    copy.Good fmt k digest s' :=
  ⟨h.1, h.2.1.calm hcalm, fun hcreated => (h.2.2 hcreated).calm hcalm⟩

/-- An operation on the pending side that spares the bytes keeps the placed copy good. -/
theorem PlacedCopy.Good.change (h : copy.Good fmt k digest s) {o : SpoolOp}
    (ho : ∀ x, Spares k x s o) (hchange : SpoolState.Change s o s')
    (hquarantine : s'.dir .quarantine k.day = s.dir .quarantine k.day) :
    copy.Good fmt k digest s' := by
  refine ⟨h.1, ?_, fun hcreated => (h.2.2 hcreated).change (ho _) hchange⟩
  unfold Placed
  rw [hquarantine]
  exact h.2.1

/-- What a source removal leaves: the bytes held, and a copy to clean up held elsewhere too. -/
def Finished (k : Publication) (copy : PlacedCopy) (outcome : FinalOutcome) (s : SpoolState) :
    Prop :=
  Held k s ∧ (outcome = .cleanup → copy.created = true → HeldBut k (some copy.candidate) s)

theorem heldSafe_finished {outcome : FinalOutcome} (h : Held k s) (hgood : copy.Good fmt k digest s) :
    HeldSafe fmt k (.ret outcome) (Finished k copy) s :=
  heldSafe_ret h ⟨h, fun _ => hgood.2.2⟩

/-- **The source is unlinked only behind its durable copy.** -/
theorem unlinkRetired_held
    (hsha : ∀ content, fmt.sha256 content = fmt.sha256 k.content → content = k.content)
    (h : Held k s) (hgood : copy.Good fmt k digest s)
    (hsource : SourceFile fmt k.day digest name s) :
    HeldSafe fmt k (unlinkRetired fmt k.day name copy digest) (Finished k copy) s := by
  unfold unlinkRetired
  refine (heldSafe_of_observes (x := none)
    (certifyLiveTarget_only.mono fun _ => observes_of_lookOp) h).seq
    fun target t _ ⟨hcalm, ht⟩ => ?_
  have hgood := hgood.calm hcalm
  have hsource := hsource.calm hcalm
  split
  · exact heldSafe_finished ht hgood
  · refine heldSafe_observe ht trivial fun s₁ _ c pendingHolds s₂ _ hcalm₂ h₂ => ?_
    have hgood := hgood.calm hcalm₂
    have hsource := hsource.calm hcalm₂
    split
    · exact heldSafe_finished h₂ hgood
    · refine heldSafe_observe h₂ trivial fun s₃ _ c quarantineHolds s₄ _ hcalm₄ h₄ => ?_
      have hgood := hgood.calm hcalm₄
      obtain ⟨f, hf, hdigest⟩ := hsource.calm hcalm₄
      split
      · exact heldSafe_finished h₄ hgood
      · -- past this point there is nothing left to clean up
        have hrest : ∀ {unlinked : Bool} {u : SpoolState}, Held k u →
            HeldSafe fmt k (do
              if !unlinked then pure .uncertain
              else
                let synced : Bool ← call (Γ := spoolSignature) (.syncDir .pending k.day)
                if !synced then pure .uncertain
                else
                  let bound : Bool ← call (Γ := spoolSignature) (.binding .pending k.day)
                  let again ← certifyLiveTarget fmt k.day copy.candidate digest
                  pure (if bound ∧ again = some copy.snapshot then .completed else .uncertain))
              (Finished k copy) u := by
          intro unlinked u hu
          split
          · exact heldSafe_ret hu ⟨hu, nofun⟩
          · refine heldSafe_op (x := none) hu fun _ _ _ _ synced _ _ => ⟨trivial, fun h' => ?_⟩
            split
            · exact heldSafe_ret h' ⟨h', nofun⟩
            · refine heldSafe_observe h' trivial fun _ _ _ bound _ _ _ h'' => ?_
              refine (heldSafe_of_observes
                (certifyLiveTarget_only.mono fun _ => observes_of_lookOp) h'').seq
                fun again v _ ⟨_, hv⟩ => ?_
              refine heldSafe_ret hv ⟨hv, fun hcleanup => ?_⟩
              split at hcleanup <;> cases hcleanup
        refine Keeps.op h₄ fun s₅ hcalm₅ (h₅ : Held k s₅) c unlinked s₆ hstep => Or.inr ?_
        have h₆ : Held k s₆ := by
          by_cases hcontent : f.content = k.content
          · -- the source is the publication: its copy holds the bytes
            have hplaced := (hgood.calm hcalm₅).2.1
            have hall : (s₆.dir .quarantine k.day).All (k.InQuarantine none) := by
              have hdir : s₆.dir .quarantine k.day = s₅.dir .quarantine k.day := by
                cases SpoolState.perform_change hstep with
                | same => rfl
                | unlink p g _ => rw [SpoolState.dir_remove, if_neg (by simp)]
              rw [hdir]
              refine hplaced.mono fun l ⟨g, hg, hgd⟩ => ⟨copy.candidate, g, hg, ?_, hgood.1, nofun⟩
              exact hsha _ (by rw [hgd, ← hdigest, hcontent])
            exact Or.inr ⟨hall, hall.current⟩
          · exact HeldBut.change (x := none) (o := .unlink ⟨.pending, k.day, name⟩) h₅
              (spared_of_content (hcalm₅.file hf) hcontent) (SpoolState.perform_change hstep)
        exact ⟨h₆, hrest h₆⟩

/-- Only an empty reservation is unlinked. -/
theorem cleanupEmptyReservation_held {reserved : Nat} (h : Held k s) :
    HeldSafe fmt k (cleanupEmptyReservation k.day name reserved) (fun _ t => Held k t) s := by
  unfold cleanupEmptyReservation
  refine heldSafe_observe h trivial fun s₁ _ c r s₂ hstep₂ _ h₂ => ?_
  obtain ⟨rfl, hr⟩ := SpoolState.perform_readFile hstep₂
  rcases r with e | f
  · exact heldSafe_ret h₂ h₂
  · have hopened : s₂.opened ⟨.pending, k.day, name⟩ = .ok f := by
      rcases hr with hr | hr
      · exact hr.symm
      · cases hr
    obtain ⟨g, hg, hcontent, -⟩ := SpoolState.opened_ok hopened
    dsimp only
    split
    · exact heldSafe_ret h₂ h₂
    · rename_i hempty
      have hne : g.content ≠ k.content := by
        intro heq
        refine k.nonempty ?_
        rw [← heq, hcontent]
        by_contra hf
        exact hempty (Or.inr (Or.inl hf))
      refine heldSafe_observe h₂ trivial fun s₃ _ c live s₄ _ hcalm₄ h₄ => ?_
      split
      · exact heldSafe_ret h₄ h₄
      · refine heldSafe_op h₄ fun s₅ hcalm₅ _ c unlinked s₆ _ =>
          ⟨spared_of_content (hcalm₅.file (hcalm₄.file hg)) hne, fun h₆ => ?_⟩
        split
        · exact heldSafe_op h₆ fun _ _ _ _ _ _ _ => ⟨trivial, fun h₈ => heldSafe_ret h₈ h₈⟩
        · exact heldSafe_ret h₆ h₆

/-- **The source goes to a retirement name, and from there only behind its copy.** -/
theorem retireSource_held
    (hsha : ∀ content, fmt.sha256 content = fmt.sha256 k.content → content = k.content)
    {retirement : String} (hretire : retirePrefix.toList <+: retirement.toList) (h : Held k s)
    (hgood : copy.Good fmt k digest s) :
    HeldSafe fmt k (retireSource fmt k.day name retirement snapshot copy digest)
      (Finished k copy) s := by
  unfold retireSource
  refine heldSafe_op h fun s₁ hcalm₁ _ c create s₂ hstep₂ => ⟨trivial, fun h₂ => ?_⟩
  have hgood₂ : copy.Good fmt k digest s₂ := by
    refine (hgood.calm hcalm₁).change (o := .createExcl ⟨.pending, k.day, retirement⟩ [])
      (fun _ => trivial) (SpoolState.perform_change hstep₂) ?_
    cases SpoolState.perform_change hstep₂ with
    | same => rfl
    | create p content written _ _ => rw [SpoolState.dir_create, SpoolState.dir_put, if_neg (by simp)]
  rcases create with _ | _ | _
  · obtain rfl := SpoolState.perform_createExcl hstep₂
    -- the reservation is empty, and nobody fills it
    have hreserved : (s₁.create ⟨.pending, k.day, retirement⟩ []).file
        ⟨.pending, k.day, retirement⟩ = some ⟨[], s₁.nextInode, .private⟩ :=
      SpoolState.file_put_self _ _ _
    refine heldSafe_observe h₂ trivial fun s₃ _ c r s₄ _ hcalm₄ h₄ => ?_
    have hgood₄ := hgood₂.calm hcalm₄
    have hreserved₄ := hcalm₄.file hreserved
    rcases r with e | reserved
    · exact heldSafe_finished h₄ hgood₄
    · have hspares : ∀ {t : SpoolState}, Calm (s₁.create ⟨.pending, k.day, retirement⟩ []) t →
          ∀ x, Spares k x t (.rename .pending k.day name retirement true) := by
        intro t hcalm x
        refine ⟨fun _ => spared_of_content (hcalm.file hreserved) ?_, Or.inr ⟨rfl, hretire⟩⟩
        exact fun hempty => k.nonempty hempty.symm
      refine heldSafe_op h₄ fun s₅ hcalm₅ _ c renamed s₆ hstep₆ =>
        ⟨hspares (hcalm₄.trans hcalm₅) none, fun h₆ => ?_⟩
      have hgood₆ : copy.Good fmt k digest s₆ := by
        refine (hgood₄.calm hcalm₅).change (hspares (hcalm₄.trans hcalm₅))
          (SpoolState.perform_change hstep₆) ?_
        cases SpoolState.perform_change hstep₆ with
        | same => rfl
        | rename tree day src dst replace g _ _ => rw [SpoolState.dir_move, if_neg (by simp)]
      have hclean : HeldSafe fmt k (do
          cleanupEmptyReservation k.day retirement reserved.inode
          pure .uncertain) (Finished k copy) s₆ :=
        (cleanupEmptyReservation_held h₆).seq fun _ t _ ht => heldSafe_ret ht ⟨ht, nofun⟩
      rcases renamed with _ | _ | _ | _
      · refine heldSafe_op h₆ fun s₇ hcalm₇ _ c synced s₈ hstep₈ => ⟨trivial, fun h₈ => ?_⟩
        cases synced with
        | false => exact heldSafe_ret h₈ ⟨h₈, nofun⟩
        | true =>
            have hgood₈ : copy.Good fmt k digest s₈ := by
              obtain rfl := SpoolState.perform_syncDir hstep₈
              refine (hgood₆.calm hcalm₇).change (o := .syncDir .pending k.day) (fun _ => trivial)
                (SpoolState.perform_change hstep₈) ?_
              rw [SpoolState.dir_syncDir, if_neg (by simp)]
            refine (certifyTarget_held h₈).seq fun retired t _ ⟨hcalm₉, h₉, hfile⟩ => ?_
            have hgood₉ := hgood₈.calm hcalm₉
            split
            · exact heldSafe_finished h₉ hgood₉
            · rename_i hretired
              exact unlinkRetired_held hsha h₉ hgood₉ (hfile snapshot (not_not.mp hretired))
      · exact hclean
      · exact hclean
      · exact hclean
  · exact heldSafe_finished h₂ hgood₂
  · exact heldSafe_finished h₂ hgood₂

/-- Removing the source keeps the content held, since the good copy has the same digest and so the
same bytes. -/
theorem finalizeSourceRemoval_held
    (hsha : ∀ content, fmt.sha256 content = fmt.sha256 k.content → content = k.content)
    (h : Held k s) (hgood : copy.Good fmt k digest s)
    (hsource : SourceFile fmt k.day digest name s) :
    HeldSafe fmt k (finalizeSourceRemoval fmt k.day name snapshot copy digest)
      (Finished k copy) s := by
  unfold finalizeSourceRemoval
  refine heldSafe_observe h trivial fun s₁ _ c live s₂ _ hcalm₂ h₂ => ?_
  have hgood₂ := hgood.calm hcalm₂
  split
  · exact heldSafe_finished h₂ hgood₂
  · refine (heldSafe_of_observes
      (certifyLiveTarget_only.mono fun _ => observes_of_lookOp) h₂).seq
      fun target s₃ _ ⟨hcalm₃, h₃⟩ => ?_
    have hgood₃ := hgood₂.calm hcalm₃
    split
    · exact heldSafe_finished h₃ hgood₃
    · refine heldSafe_observe h₃ trivial fun _ _ c quarantineHolds s₄ _ hcalm₄ h₄ => ?_
      have hgood₄ := hgood₃.calm hcalm₄
      split
      · exact heldSafe_finished h₄ hgood₄
      · refine heldSafe_observe h₄ trivial fun _ _ c r s₅ _ hcalm₅ h₅ => ?_
        have hgood₅ := hgood₄.calm hcalm₅
        rcases r with e | f
        · exact heldSafe_finished h₅ hgood₅
        · dsimp only
          split
          · exact heldSafe_finished h₅ hgood₅
          · refine heldSafe_observe h₅ trivial fun _ _ c bound s₆ _ hcalm₆ h₆ => ?_
            have hgood₆ := hgood₅.calm hcalm₆
            split
            · exact heldSafe_finished h₆ hgood₆
            · split
              · refine unlinkRetired_held hsha h₆ hgood₆ ?_
                exact ((((hsource.calm hcalm₂).calm hcalm₃).calm hcalm₄).calm hcalm₅).calm hcalm₆
              · exact retireSource_held hsha (retirePrefix_retirementName _ _) h₆ hgood₆

/-- So the second half of a move never loses the last copy of the segment. -/
theorem finishMove_held
    (hsha : ∀ content, fmt.sha256 content = fmt.sha256 k.content → content = k.content)
    (h : Held k s) (hgood : copy.Good fmt k digest s)
    (hsource : SourceFile fmt k.day digest name s) :
    HeldSafe fmt k (finishMove fmt k.day name snapshot digest copy) (fun _ _ => True) s := by
  unfold finishMove
  refine (finalizeSourceRemoval_held hsha h hgood hsource).seq fun outcome t _ ht => ?_
  obtain ⟨ht, hbut⟩ := ht
  rcases outcome with _ | _ | _
  · exact heldSafe_ret ht trivial
  · exact heldSafe_ret ht trivial
  · dsimp only
    split
    · rename_i hcreated
      exact (cleanupCandidate_held (hbut rfl hcreated)).seq fun _ u _ hu => heldSafe_ret hu trivial
    · exact heldSafe_ret ht trivial

/-- The source has the digest of the move when the copy starts. -/
theorem rereadSource_held {day : Day} (h : Held k s) :
    HeldSafe fmt k (rereadSource fmt day name snapshot digest)
      (fun r t => Held k t ∧ (r.isSome → SourceFile fmt day digest name t)) s := by
  unfold rereadSource
  refine heldSafe_observe h trivial fun _ _ c live s₂ _ _ h₂ => ?_
  split
  · exact heldSafe_ret h₂ ⟨h₂, nofun⟩
  · refine heldSafe_observe h₂ trivial fun s₃ _ c r s₄ hstep₄ _ h₄ => ?_
    obtain ⟨rfl, hr⟩ := SpoolState.perform_readFile hstep₄
    rcases r with e | f
    · exact heldSafe_ret h₄ ⟨h₄, nofun⟩
    · have hopened : s₄.opened ⟨.pending, day, name⟩ = .ok f := by
        rcases hr with hr | hr
        · exact hr.symm
        · cases hr
      obtain ⟨g, hg, hcontent, -⟩ := SpoolState.opened_ok hopened
      dsimp only
      split
      · exact heldSafe_ret h₄ ⟨h₄, nofun⟩
      · rename_i hsame
        have hdigest : fmt.sha256 g.content = digest := by
          rw [hcontent]
          exact not_not.mp (not_or.mp hsame).2
        refine heldSafe_observe h₄ trivial fun _ _ c pendingHolds s₅ _ hcalm₅ h₅ => ?_
        refine heldSafe_observe h₅ trivial fun _ _ c quarantineHolds s₆ _ hcalm₆ h₆ => ?_
        exact heldSafe_ret h₆ ⟨h₆, fun _ => ⟨g, hcalm₆.file (hcalm₅.file hg), hdigest⟩⟩

/-- **Every quarantine move keeps published bytes held.** -/
theorem moveToQuarantine_held {day : Day}
    (hsha : ∀ content, fmt.sha256 content = fmt.sha256 k.content → content = k.content)
    (h : Held k s) :
    HeldSafe fmt k (moveToQuarantine fmt day name snapshot digest) (fun _ _ => True) s := by
  by_cases hday : day = k.day
  · subst hday
    unfold moveToQuarantine
    refine heldSafe_op h fun s₁ _ _ c opened s₂ _ => ⟨trivial, fun h₂ => ?_⟩
    split
    · exact heldSafe_ret h₂ trivial
    · refine (rereadSource_held h₂).seq fun content s₃ _ ⟨h₃, hsource⟩ => ?_
      cases content with
      | none => exact heldSafe_ret h₃ trivial
      | some content =>
          dsimp only
          split
          · exact heldSafe_ret h₃ trivial
          · refine Keeps.seq ((placeCopy_held h₃).frame placeCopy_only
              (F := SourceFile fmt k.day digest name) (fun _ _ hF hcalm => hF.calm hcalm)
              (fun _ _ _ _ _ ho hF hstep => hF.copyOp ho (SpoolState.perform_change hstep))
              (hsource rfl)) fun placed t _ ⟨⟨ht, hgood⟩, hsource⟩ => ?_
            rcases placed with copy | reason | _
            · exact finishMove_held hsha ht (hgood copy rfl) hsource
            · exact heldSafe_ret ht trivial
            · exact heldSafe_ret ht trivial
  · -- a move of another day touches neither directory
    refine heldSafe_of_only moveToQuarantine_only (fun t o ho => ?_) h
    have hother : ∀ {p : Path}, p.day = day → ∀ x, Spared k x t p :=
      fun hp x => Or.inl (Or.inl (hp ▸ hday))
    cases o with
    | unlink p => exact hother ho.1 none
    | rename tree d src dst replace =>
        obtain ⟨-, rfl, -⟩ := ho
        exact ⟨fun _ => hother rfl none, Or.inl (hother rfl none)⟩
    | truncate p => exact ho.elim
    | _ => trivial

end Source

end Milhouse
