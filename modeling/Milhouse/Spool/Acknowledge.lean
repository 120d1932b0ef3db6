import Milhouse.Spool.Kept
import Milhouse.Spool.Operations

/-!
# Milhouse — what a section remembers is true

`Meaning e s` is what an event claims of the state right after it: an acknowledged record is live, a
published file is at its path in every listing, and a pruned segment's bytes had been read and were
fully expired. `TruthSafe` programs remember only what is true.

* **`commitSegment_truthful`** — an acknowledgement comes after a durable file and a ledger row;
* **`retentionApply_truthful`** — a prune comes after a read of fully expired bytes.
-/

namespace Milhouse

open Disk Interaction Interaction.Prog

/-- The record and the bytes are those of a commit. -/
def Built (fmt : SegmentFormat) (r : SegmentRecord) (content : Bytes) : Prop :=
  ∃ header frames stamp, fmt.build header frames = .ok content ∧
    r = committedRecord fmt header content stamp

/-- Every listing a crash may leave shows the bytes at the path. -/
def Durable (s : SpoolState) (p : Path) (content : Bytes) : Prop :=
  (s.dir p.tree p.day).All fun l => ∃ f, l.lookup p.name = some f ∧ f.content = content

/-- What an event claims of the state right after it. -/
def Meaning (fmt : SegmentFormat) (s : SpoolState) : Event → Prop
  | .acknowledged r content => Built fmt r content ∧ Live ⟨r, content, s.history.length⟩ s
  | .published p content =>
      Durable s p content ∧ ∃ r, Built fmt r content ∧ p = segmentPath r.day r.batchId
  | .pruned r now => ∃ content parsed, fmt.sha256 content = r.fileSha256 ∧
      fmt.read content = .ok parsed ∧ fullyExpired fmt parsed now = true
  | _ => True

/-- An operation whose event, if any, claims nothing. -/
def SpoolOp.mute : SpoolOp → Prop
  | .pruneSegment .. | .note _ => False
  | _ => True

/-- What the operation remembered, if anything, is true. -/
def Truthful (fmt : SegmentFormat) (s s' : SpoolState) : Prop :=
  ∀ e, s'.history = s.history ++ [e] → Meaning fmt s' e

section Built

variable {fmt : SegmentFormat} {r : SegmentRecord} {content : Bytes}

/-- A segment that was built has a batch id the reader accepts. -/
theorem Built.matchesBatchId (h : Built fmt r content) : matchesBatchId r.batchId = true := by
  obtain ⟨header, frames, stamp, -, rfl⟩ := h
  exact header.matchesBatchId

/-- A segment that was built has at least its header line. -/
theorem Built.nonempty (h : Built fmt r content) : content ≠ [] := by
  obtain ⟨header, frames, stamp, hbuild, -⟩ := h
  exact fmt.build_nonempty hbuild

/-- The digest in the record of a built segment is that of its bytes. -/
theorem Built.digest (h : Built fmt r content) : fmt.sha256 content = r.fileSha256 := by
  obtain ⟨header, frames, stamp, -, rfl⟩ := h
  rfl

/-- Bytes that were built and are accepted agree with the record of their commit. -/
theorem Built.accepts (h : Built fmt r content) {parsed : ParsedSegment fmt.Frame} {n : Nat}
    (hread : fmt.read content = .ok parsed) : Accepts fmt ⟨r, content, n⟩ := by
  obtain ⟨header, frames, stamp, hbuild, rfl⟩ := h
  obtain ⟨hheader, -⟩ := fmt.read_build hbuild hread
  obtain ⟨hsize, hdigest⟩ := fmt.read_size hread
  refine ⟨parsed, hread, ?_⟩
  simp [agrees, committedRecord, hheader, hsize, hdigest]

end Built

section Rules

variable {fmt : SegmentFormat} {s s' : SpoolState} {α β : Type}

/-- Remembering only what is true, and keeping the ledger sound. -/
def TruthSafe (fmt : SegmentFormat) (p : SpoolProg α) (Q : α → SpoolState → Prop)
    (s : SpoolState) : Prop :=
  p.Safe spoolHandler Calm (Truthful fmt) (fun x t => t.ledger.Sound ∧ Q x t) s

/-- An operation that only touches watched paths acknowledges nothing. -/
theorem mute_of_touches {o : SpoolOp} {K : Path → Prop} (h : Touches K o) : o.mute := by
  cases o <;> trivial

/-- A step that acknowledges nothing cannot acknowledge falsely. -/
theorem truthful_of_mute {o : SpoolOp} (ho : o.mute) (h : SpoolState.Change s o s') :
    Truthful fmt s s' := by
  have hnone : s'.history = s.history → Truthful fmt s s' := by
    intro hsame e he
    rw [hsame] at he
    simp at he
  have hone : ∀ x, s'.history = s.history ++ [x] → Meaning fmt s' x → Truthful fmt s s' := by
    intro x hx hmeaning e he
    rw [hx] at he
    obtain rfl := List.cons.inj (List.append_cancel_left he) |>.1
    exact hmeaning
  cases h with
  | unreadable p inventoried => exact hone (.unreadable p inventoried) rfl trivial
  | handed r x frames now ok => exact hone (.handed r x frames now ok) rfl trivial
  | ensure => exact hnone (by simp)
  | ensureSync => exact hnone (by simp)
  | prune => exact ho.elim
  | note => exact ho.elim
  | _ => exact hnone rfl

/-- Returning acknowledges nothing more than was acknowledged. -/
theorem truthSafe_ret {x : α} {Q : α → SpoolState → Prop} (hsound : s.ledger.Sound) (hQ : Q x s) :
    TruthSafe fmt (.ret x) Q s := ⟨hsound, hQ⟩

/-- The rule of one operation that claims nothing. -/
theorem truthSafe_op {o : SpoolOp} {k : o.Resp → SpoolProg α} {Q : α → SpoolState → Prop}
    (hsound : s.ledger.Sound) (ho : o.mute)
    (h : ∀ s₁, Calm s s₁ → ∀ c r s', s₁.perform o c = some (r, s') → s'.ledger.Sound →
      TruthSafe fmt (k r) Q s') :
    TruthSafe fmt (call (Γ := spoolSignature) o >>= k) Q s := by
  intro s₁ hcalm c r s' hstep
  have hchange := SpoolState.perform_change hstep
  exact ⟨truthful_of_mute ho hchange,
    h s₁ hcalm c r s' hstep (hchange.sound (hcalm.sound hsound))⟩

/-- Truthfulness composes, with what the first part established handed to the second. -/
theorem TruthSafe.seq {p : SpoolProg α} {f : α → SpoolProg β} {R : α → SpoolState → Prop}
    {Q : β → SpoolState → Prop} (h : TruthSafe fmt p R s)
    (hf : ∀ x t, t.ledger.Sound → R x t → TruthSafe fmt (f x) Q t) :
    TruthSafe fmt (p >>= f) Q s :=
  Safe.seq h fun x t hx => hf x t hx.1 hx.2

/-- A program of such operations. -/
theorem truthSafe_of_touches {p : SpoolProg α} {K : Path → Prop} (hp : p.Only (Touches K))
    (hsound : s.ledger.Sound) : TruthSafe fmt p (fun _ _ => True) s := by
  refine (Safe.of_only hp (I := fun t => t.ledger.Sound) ?_ ?_ hsound).mono fun _ _ h => ⟨h, trivial⟩
  · exact fun t t' hs hcalm => hcalm.sound hs
  · intro t o c r t' ho hs hstep
    have hchange := SpoolState.perform_change hstep
    exact ⟨truthful_of_mute (mute_of_touches ho) hchange, hchange.sound hs⟩

end Rules

/-! ## Commit -/

section Commit

variable {fmt : SegmentFormat} {s s' : SpoolState} {p : Path} {content : Bytes}

/-- Bytes that are durable under a name stay so under calm steps of others. -/
theorem Durable.calm (h : Durable s p content) (hcalm : Calm s s') : Durable s' p content :=
  hcalm.all (fun _ _ hgrow ⟨f, hf, hcontent⟩ => ⟨f, hgrow _ _ hf, hcontent⟩) h

/-- A publication that returns has put the bytes behind a synced directory. -/
theorem publishStaged_truthful {stage : Path} (hsound : s.ledger.Sound) :
    TruthSafe fmt (publishStaged stage p content)
      (fun outcome t => outcome = .published → Durable t p content) s := by
  have hret : ∀ {outcome : PublishOutcome} {t : SpoolState}, outcome ≠ .published →
      t.ledger.Sound → TruthSafe fmt (.ret outcome)
        (fun outcome t => outcome = .published → Durable t p content) t :=
    fun hne hs => truthSafe_ret hs fun h => absurd h hne
  unfold publishStaged
  refine truthSafe_op hsound trivial fun s₁ _ c r s₂ hstep hs₂ => ?_
  rcases r with _ | _ | _ | _
  · obtain ⟨f, -, rfl⟩ := SpoolState.perform_rename hstep
    -- the renamed file stays at its public name from here on
    have hfile : (s₁.move p.tree p.day stage.name p.name f).file p = some f := by
      rw [SpoolState.file, SpoolState.dir_move, if_pos rfl]
      exact AList.lookup_insert _
    refine truthSafe_op hs₂ trivial fun s₃ hcalm₃ c₃ synced s₄ hstep₄ hs₄ => ?_
    cases synced with
    | false => exact hret (by decide) hs₄
    | true =>
        obtain rfl := SpoolState.perform_syncDir hstep₄
        have hfile₃ := hcalm₃.file hfile
        have hfile₄ : (s₃.syncDir p.tree p.day).file p = some f := by
          rw [SpoolState.file, SpoolState.dir_syncDir, if_pos rfl]
          exact hfile₃
        refine truthSafe_op hs₄ trivial fun s₅ hcalm₅ c₅ r s₆ hstep₆ hs₆ => ?_
        obtain ⟨rfl, hr⟩ := SpoolState.perform_readFile hstep₆
        rcases r with e | g
        · exact hret (by decide) hs₆
        · by_cases hcontent : g.content = content
          · simp only [hcontent, if_true]
            refine truthSafe_ret hs₆ fun _ => Durable.calm ?_ hcalm₅
            have hsame : f.content = content := by
              have hfile₅ := hcalm₅.file hfile₄
              rcases hr with hr | hr
              · rw [SpoolState.opened, SpoolState.stat, hfile₅, Option.map_some] at hr
                rw [← hcontent, Except.ok.inj hr]
                split <;> rfl
              · cases hr
            unfold Durable
            rw [SpoolState.dir_syncDir, if_pos rfl, Dir.all_sync]
            exact ⟨f, hfile₃, hsame⟩
          · simp only [hcontent, if_false]
            exact hret (by decide) hs₆
  · refine truthSafe_op hs₂ trivial fun _ _ _ emptied _ _ hs => ?_
    cases emptied
    · exact hret (by decide) hs
    · exact hret (by decide) hs
  · exact truthSafe_op hs₂ trivial fun _ _ _ _ _ _ hs => hret (by decide) hs
  · exact hret (by decide) hs₂

/-- A file that is reported published is durable under its name, whichever attempt it was. -/
theorem createRegularFile_truthful {attempts : Nat} (hsound : s.ledger.Sound) :
    TruthSafe fmt (createRegularFile p content attempts)
      (fun outcome t => outcome = .published → Durable t p content) s := by
  have hret : ∀ {t : SpoolState}, t.ledger.Sound → TruthSafe fmt (.ret PublishOutcome.failed)
      (fun outcome t => outcome = .published → Durable t p content) t :=
    fun hs => truthSafe_ret hs fun h => by cases h
  induction attempts generalizing s with
  | zero => exact hret hsound
  | succ attempts ih =>
      unfold createRegularFile
      refine truthSafe_op hsound trivial fun s₁ _ c r s₂ _ hs₂ => ?_
      cases r with
      | none => exact hret hs₂
      | some token =>
          dsimp only
          split
          · exact hret hs₂
          · refine truthSafe_op hs₂ trivial fun s₃ _ c₃ create s₄ _ hs₄ => ?_
            rcases create with _ | _ | _
            · exact publishStaged_truthful hs₄
            · exact ih hs₄
            · unfold sanitizeStaged
              exact truthSafe_op hs₄ trivial fun _ _ _ _ _ _ hs => hret hs

/-- **The record is acknowledged after its file is durable and its row is in**, and it is live when
it is returned. -/
theorem publishAndRecord_truthful {r : SegmentRecord} (hbuilt : Built fmt r content)
    (hsound : s.ledger.Sound) :
    TruthSafe fmt (publishAndRecord r content)
      (fun result t => ∀ record, result = .ok record → record = r ∧ Live ⟨r, content, 0⟩ t) s := by
  have herror : ∀ {t : SpoolState} {e : SpoolError} (record : SegmentRecord),
      (Except.error e : Except SpoolError SegmentRecord) = .ok record →
        record = r ∧ Live ⟨r, content, 0⟩ t := fun _ h => by cases h
  unfold publishAndRecord
  refine truthSafe_op hsound trivial fun s₁ _ c opened s₂ _ hs₂ => ?_
  cases opened with
  | false => exact truthSafe_ret hs₂ herror
  | true =>
      -- The publication makes the bytes durable before the row refers to them.
      refine TruthSafe.seq (R := fun outcome t => outcome = .published →
        Durable t (segmentPath r.day r.batchId) content) ?_ fun outcome t hs hdurable => ?_
      · unfold publishSegmentBytes
        refine truthSafe_op hs₂ trivial fun s₃ _ c₃ x s₄ _ hs₄ => ?_
        rcases x with (_ | _ | _) | f
        · exact createRegularFile_truthful hs₄
        all_goals exact truthSafe_ret hs₄ fun h => by cases h
      · rcases outcome with _ | _ | _
        -- The publication is acknowledged only now, and at this point the bytes are durable.
        · intro t₁ hcalm₁ c₁ u t₂ hstep₂
          obtain rfl := SpoolState.perform_note hstep₂
          have hdurable₁ := (hdurable rfl).calm hcalm₁
          have hs₁ := hcalm₁.sound hs
          refine ⟨fun e he => ?_, ?_⟩
          · obtain rfl := List.cons.inj (List.append_cancel_left he) |>.1
            exact ⟨hdurable₁, r, hbuilt, rfl⟩
          refine truthSafe_op hs₁ trivial fun t₃ hcalm₃ c₃ inserted t₄ hstep₄ hs₄ => ?_
          cases inserted with
          | false => exact truthSafe_ret hs₄ herror
          | true =>
              obtain ⟨ledger, hinsert, rfl⟩ := SpoolState.perform_insertSegment hstep₄
              have hs₃ : t₃.ledger.Sound := hcalm₃.sound hs₁
              have hdurable₃ : Durable t₃ (segmentPath r.day r.batchId) content :=
                Durable.calm (s := t₁.remember _) hdurable₁ hcalm₃
              -- The row is inserted over a durable file, so from here the segment is live.
              have hlive : Live ⟨r, content, 0⟩ (t₃.setLedger ledger) := by
                obtain ⟨-, hsegments, -⟩ := Ledger.insertSegment_eq hinsert
                refine ⟨⟨?_, fun e => hs₃.required_insert hinsert, Nat.zero_le _⟩, hdurable₃⟩
                rw [SpoolState.ledger_setLedger, hsegments]
                exact AList.lookup_insert _
              -- Others may take calm steps before the record is noted, and the segment is live
              -- still.
              intro t₅ hcalm₅ c₅ u t₆ hstep₆
              obtain rfl := SpoolState.perform_note hstep₆
              have hlive₅ := hlive.calm hcalm₅
              refine ⟨fun e he => ?_, hcalm₅.sound hs₄, fun record hrecord => ?_⟩
              · obtain rfl := List.cons.inj (List.append_cancel_left he) |>.1
                exact ⟨hbuilt, ⟨hlive₅.row, hlive₅.exporters, le_refl _⟩, hlive₅.file⟩
              · exact ⟨(Except.ok.inj hrecord).symm,
                  ⟨hlive₅.row, hlive₅.exporters, Nat.zero_le _⟩, hlive₅.file⟩
        · exact truthSafe_ret hs herror
        · exact truthSafe_ret hs herror

/-- What a commit that returned has left: the record of the bytes it built, live. -/
def Committed (fmt : SegmentFormat) (header : SegmentHeaderV1) (frames : List fmt.Frame)
    (stamp : Stamp) (record : SegmentRecord) (s : SpoolState) : Prop :=
  ∃ content, fmt.build header frames = .ok content ∧
    record = committedRecord fmt header content stamp ∧ Live ⟨record, content, 0⟩ s

/-- A commit that returns a record has made the bytes and the row durable, and a failed one
acknowledges nothing. -/
theorem commitSegment_truthful {header : SegmentHeaderV1} {frames : List fmt.Frame} {stamp : Stamp}
    (hsound : s.ledger.Sound) :
    TruthSafe fmt (commitSegment fmt header frames stamp)
      (fun result t => ∀ record, result = .ok record →
        Committed fmt header frames stamp record t) s := by
  have herror : ∀ {t : SpoolState} {e : SpoolError} (record : SegmentRecord),
      (Except.error e : Except SpoolError SegmentRecord) = .ok record →
        Committed fmt header frames stamp record t := fun _ h => by cases h
  unfold commitSegment
  split
  · exact truthSafe_ret hsound herror
  · split
    · exact truthSafe_ret hsound herror
    · rename_i content hbuild
      refine (truthSafe_of_touches reconcilePass_only hsound).seq fun report t hs _ => ?_
      cases report with
      | error e => exact truthSafe_ret hs herror
      | ok report =>
          dsimp only
          split
          · exact truthSafe_ret hs herror
          · split
            · exact truthSafe_ret hs herror
            · refine truthSafe_op hs trivial fun _ _ _ shared _ _ hs' => ?_
              split
              · exact truthSafe_ret hs' herror
              · refine (publishAndRecord_truthful ⟨header, frames, stamp, hbuild, rfl⟩ hs').mono
                  fun result t h => ⟨h.1, fun record hrecord => ?_⟩
                obtain ⟨rfl, hlive⟩ := h.2 record hrecord
                exact ⟨content, hbuild, rfl, hlive⟩

end Commit

/-! ## Retention -/

section Retention

variable {fmt : SegmentFormat} {s : SpoolState}

/-- What the trusted reader gives was read from some bytes. -/
theorem readTrustedSegment_truthful {p : Path} {inventoried : Bool} (hsound : s.ledger.Sound) :
    TruthSafe fmt (readTrustedSegment fmt p inventoried)
      (fun x _ => ∀ parsed, x = .ok parsed → ∃ content, fmt.read content = .ok parsed) s := by
  refine (Safe.of_yields readTrustedSegment_only readTrustedSegment_yields
    (I := fun t => t.ledger.Sound) (fun t t' hs hcalm => hcalm.sound hs) ?_ hsound).mono
    fun x t ⟨hx, hs⟩ => ⟨hs, hx⟩
  intro t o c r t' ho hs hstep
  have hchange := SpoolState.perform_change hstep
  exact ⟨truthful_of_mute (mute_of_touches (K := fun _ => True) (touches_of_observes ho)) hchange,
    hchange.sound hs⟩

/-- **A prune comes after a read of fully expired bytes with the row's digest.** -/
theorem applyOne_truthful {r : SegmentRecord} {now : Stamp} (hsound : s.ledger.Sound) :
    TruthSafe fmt (applyOne fmt r now) (fun _ _ => True) s := by
  unfold applyOne
  refine (readTrustedSegment_truthful hsound).seq fun x t hs hx => ?_
  cases x with
  | error e => exact truthSafe_ret hs trivial
  | ok parsed =>
      dsimp only
      split
      · exact truthSafe_ret hs trivial
      · rename_i hagrees
        split
        · exact truthSafe_ret hs trivial
        · rename_i hexpired
          unfold pruneSegment
          intro t₁ hcalm c deleted t₂ hstep
          have hchange := SpoolState.perform_change hstep
          have hs₂ : t₂.ledger.Sound := hchange.sound (hcalm.sound hs)
          refine ⟨?_, ?_⟩
          · -- the digest of the bytes read is the row's, because they agree
            obtain ⟨content, hread⟩ := hx parsed rfl
            have hdigest : fmt.sha256 content = r.fileSha256 := by
              rw [← (fmt.read_size hread).2]
              simp [agrees] at hagrees
              tauto
            intro e he
            cases deleted with
            | true =>
                obtain ⟨ledger, -, rfl⟩ := SpoolState.perform_pruneSegment hstep
                obtain rfl := List.cons.inj (List.append_cancel_left he) |>.1
                exact ⟨content, parsed, hdigest, hread, by simpa using hexpired⟩
            | false =>
                obtain rfl := SpoolState.perform_pruneSegment_failed hstep
                simp at he
          · cases deleted with
            | false => exact truthSafe_ret hs₂ trivial
            | true =>
                refine (truthSafe_of_touches (removeRegularFile_only (K := fun _ => True) trivial)
                  hs₂).seq fun outcome u hsᵤ _ => ?_
                rcases outcome with _ | _ | _
                · exact truthSafe_op hsᵤ trivial fun _ _ _ _ _ _ hs' => truthSafe_ret hs' trivial
                · exact truthSafe_ret hsᵤ trivial
                · exact truthSafe_ret hsᵤ trivial

/-- Retention acknowledges nothing, however it ends. -/
theorem retentionApply_truthful {now : Stamp} (hsound : s.ledger.Sound) :
    TruthSafe fmt (retentionApply fmt now) (fun _ _ => True) s := by
  unfold retentionApply
  refine truthSafe_op hsound trivial fun s₁ _ c r s₂ _ hs₂ => ?_
  cases r with
  | none => exact truthSafe_ret hs₂ trivial
  | some records =>
      have hloop : TruthSafe fmt (foldUntil records [] fun results record => do
          pure (true, results ++ [← applyOne fmt record now])) (fun _ _ => True) s₂ := by
        refine Safe.foldUntil (I := fun _ (t : SpoolState) => t.ledger.Sound ∧ True) ?_
          ⟨hs₂, trivial⟩
        intro record _ results t ht
        exact (applyOne_truthful ht.1).seq fun x u hu _ => truthSafe_ret hu trivial
      exact hloop.seq fun results t hs _ => truthSafe_ret hs trivial

end Retention

end Milhouse
