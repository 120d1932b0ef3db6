import Milhouse.Alerts.Pipeline
import Mathlib.Data.List.Induction

/-!
# Milhouse — the alert frontier

Any number of pipeline runs evaluate rules at once: each reads a row, evaluates a sample, commits a
record where the state changes, and compares-and-sets the row. `AlertStore.Audited` says of a
history that every advance in it was justified by what came before: the row it replaced is the last
one, the new one is the engine's, and a transition it shows had been committed.

* **`pipelineStages_safe`** — every run keeps this, whatever the others do;
* **`alertFrontier`** — the rows of a key are the fold of the engine over the samples of its
  successful advances, one revision each, and never show a transition before its record.
-/

namespace Milhouse

open Interaction Interaction.Prog Transition

/-! ## Histories -/

/-- The transition id of an alert record. -/
def RecordEnvelope.transitionId? (record : RecordEnvelope) : Option String :=
  match record.draft.data with
  | .alert data => some data.transitionId
  | .intent _ => none

/-- The records of the segments committed in a history. -/
def committedRecords (history : List AlertEvent) : List RecordEnvelope :=
  history.flatMap fun
    | .committed _ frames => frames.map SpoolFrame.record
    | .advanced .. => []

/-- The rows a key was advanced to, oldest first. -/
def rowsOf (key : AlertKey) (history : List AlertEvent) : List AlertRuleState :=
  history.filterMap fun
    | .committed .. => none
    | .advanced sample _ row => if sample.spec.key = key then some row else none

/-- The samples of the successful advances of a key, oldest first. -/
def samplesOf (key : AlertKey) (history : List AlertEvent) : List AlertSample :=
  history.filterMap fun
    | .committed .. => none
    | .advanced sample _ _ => if sample.spec.key = key then some sample else none

/-- The row after one more sample: what `evaluate_canary_state_rule` asks for. -/
def advanceOn (hooks : Hooks) (current : Option AlertRuleState) (sample : AlertSample) :
    Option AlertRuleState :=
  match evaluateCanaryStateRule hooks sample current with
  | .ok e => some (e.update.row sample.spec.key e.update.revision sample.now)
  | .error _ => current

/-- The row after these samples. -/
def foldSamples (hooks : Hooks) (samples : List AlertSample) : Option AlertRuleState :=
  samples.foldl (advanceOn hooks) none

/-- An alert record with this transition id was committed in the history. -/
def CommittedTransition (history : List AlertEvent) (t : String) : Prop :=
  ∃ record ∈ committedRecords history, record.transitionId? = some t

/-- An advance justified by the history before it. -/
def AdvanceJustified (hooks : Hooks) (before : List AlertEvent) : AlertEvent → Prop
  | .committed .. => True
  | .advanced sample evaluation row =>
      evaluateCanaryStateRule hooks sample (rowsOf sample.spec.key before).getLast? =
          .ok evaluation ∧
        row = evaluation.update.row sample.spec.key evaluation.update.revision sample.now ∧
        ∀ draft, evaluation.draft = some draft →
          CommittedTransition before draft.data.transitionId

/-- Every event of a history is justified by those before it. -/
def Audited (hooks : Hooks) (history : List AlertEvent) : Prop :=
  ∀ before e after, history = before ++ e :: after → AdvanceJustified hooks before e

/-- The table is the last row of each key, and the history is audited. -/
structure AlertStore.Audited (hooks : Hooks) (s : AlertStore) : Prop where
  rows : ∀ key, s.rows.lookup key = (rowsOf key s.history).getLast?
  history : Milhouse.Audited hooks s.history

section Histories

variable {hooks : Hooks} {history before after : List AlertEvent} {e : AlertEvent} {key : AlertKey}
  {sample : AlertSample} {evaluation : AlertEvaluation} {row : AlertRuleState} {t : String}

@[simp] theorem rowsOf_append : rowsOf key (before ++ after) = rowsOf key before ++ rowsOf key after :=
  List.filterMap_append ..

@[simp] theorem samplesOf_append :
    samplesOf key (before ++ after) = samplesOf key before ++ samplesOf key after :=
  List.filterMap_append ..

@[simp] theorem rowsOf_committed (header : SegmentHeaderV1) (frames : List SpoolFrame) :
    rowsOf key [.committed header frames] = [] := rfl

@[simp] theorem samplesOf_committed (header : SegmentHeaderV1) (frames : List SpoolFrame) :
    samplesOf key [.committed header frames] = [] := rfl

theorem rowsOf_advanced :
    rowsOf key [.advanced sample evaluation row] = if sample.spec.key = key then [row] else [] := by
  by_cases h : sample.spec.key = key <;> simp [rowsOf, h]

theorem samplesOf_advanced :
    samplesOf key [.advanced sample evaluation row] =
      if sample.spec.key = key then [sample] else [] := by
  by_cases h : sample.spec.key = key <;> simp [samplesOf, h]

/-- A committed transition stays committed when the history grows. -/
theorem CommittedTransition.mono (h : CommittedTransition before t) (hle : before <+: history) :
    CommittedTransition history t := by
  obtain ⟨record, hrecord, ht⟩ := h
  obtain ⟨rest, rfl⟩ := hle
  exact ⟨record, by simp [committedRecords] at hrecord ⊢; exact Or.inl hrecord, ht⟩

theorem audited_nil : Audited hooks [] := fun before e after h => by simp at h

/-- A history is audited one event at a time. -/
theorem audited_snoc :
    Audited hooks (before ++ [e]) ↔ Audited hooks before ∧ AdvanceJustified hooks before e := by
  constructor
  · intro h
    exact ⟨fun b x a hb => h b x (a ++ [e]) (by simp [hb]), h before e [] rfl⟩
  · rintro ⟨hbefore, he⟩ b x a hb
    rcases List.eq_nil_or_concat a with rfl | ⟨a', y, rfl⟩
    · obtain ⟨rfl, hx⟩ := List.append_inj' hb rfl
      obtain rfl := List.cons.inj hx |>.1
      exact he
    · have hsplit : before ++ [e] = (b ++ x :: a') ++ [y] := by simpa using hb
      obtain ⟨hprev, -⟩ := List.append_inj' hsplit rfl
      exact hbefore b x a' hprev

/-- **The rows of a key are the fold of the engine over its samples.** -/
theorem Audited.rows_eq_fold (h : Audited hooks history) (key : AlertKey) :
    (rowsOf key history).getLast? = foldSamples hooks (samplesOf key history) := by
  induction history using List.reverseRecOn with
  | nil => rfl
  | append_singleton before e ih =>
      obtain ⟨hbefore, he⟩ := audited_snoc.mp h
      cases e with
      | committed header frames => simpa using ih hbefore
      | advanced sample evaluation row =>
          rw [rowsOf_append, samplesOf_append, rowsOf_advanced, samplesOf_advanced]
          by_cases hkey : sample.spec.key = key
          · subst hkey
            obtain ⟨hevaluate, hrow, -⟩ := he
            have hfold : advanceOn hooks (foldSamples hooks (samplesOf sample.spec.key before)) sample
                = some row := by
              rw [← ih hbefore, advanceOn, hevaluate, hrow]
            simpa [foldSamples] using hfold.symm
          · simpa [hkey] using ih hbefore

/-- Where the revisions of the rows are 1, 2, 3, …, the last one is their number. -/
theorem observedRevision_getLast {rows : List AlertRuleState}
    (h : rows.map AlertRuleState.revision = List.range' 1 rows.length) :
    observedRevision rows.getLast? = rows.length := by
  rcases List.eq_nil_or_concat rows with rfl | ⟨rest, row, rfl⟩
  · rfl
  · have hlast := congrArg List.getLast? h
    simpa [observedRevision, List.getLast?_range'] using hlast

/-- **One revision for each advance**, from 1 on. -/
theorem Audited.revisions (h : Audited hooks history) (key : AlertKey) :
    (rowsOf key history).map AlertRuleState.revision = List.range' 1 (rowsOf key history).length := by
  induction history using List.reverseRecOn with
  | nil => rfl
  | append_singleton before e ih =>
      obtain ⟨hbefore, he⟩ := audited_snoc.mp h
      have hrows := ih hbefore
      cases e with
      | committed header frames => simpa using hrows
      | advanced sample evaluation row =>
          rw [rowsOf_append, rowsOf_advanced]
          by_cases hkey : sample.spec.key = key
          · subst hkey
            obtain ⟨hevaluate, hrow, -⟩ := he
            have hrevision : row.revision = (rowsOf sample.spec.key before).length + 1 := by
              rw [hrow, ← observedRevision_getLast hrows]
              exact (evaluate_revision hevaluate).2
            rw [if_pos rfl, List.map_append, hrows, List.length_append, List.length_singleton,
              List.range'_1_concat, List.map_singleton, hrevision, Nat.add_comm 1]
          · simpa [hkey] using hrows

/-- In an audited history the revision that a reader observes is the number of rows of the key. -/
theorem Audited.observedRevision (h : Audited hooks history) (key : AlertKey) :
    observedRevision (rowsOf key history).getLast? = (rowsOf key history).length :=
  observedRevision_getLast (h.revisions key)

/-- An advance shows the transition it committed, or the one of the row it replaced. -/
theorem AdvanceJustified.lastTransition
    (h : AdvanceJustified hooks before (.advanced sample evaluation row))
    (hprevious : ∀ previous ∈ rowsOf sample.spec.key before,
      previous.lastTransitionId = some t → CommittedTransition before t)
    (ht : row.lastTransitionId = some t) : CommittedTransition before t := by
  obtain ⟨hevaluate, rfl, hcommitted⟩ := h
  have ht : evaluation.update.lastTransitionId = some t := ht
  rcases evaluate_cases hevaluate with ⟨-, -, hkept⟩ | ⟨draft, transition, hdraft, -, hlast, -⟩
  · rw [hkept] at ht
    obtain ⟨previous, hlookup, ht⟩ := Option.bind_eq_some_iff.mp ht
    exact hprevious previous (List.mem_of_getLast? hlookup) ht
  · rw [hlast] at ht
    exact Option.some.inj ht ▸ hcommitted draft hdraft

/-- Every advance has one sample and one row, so a key has as many of each. -/
theorem length_rowsOf : (rowsOf key history).length = (samplesOf key history).length := by
  induction history with
  | nil => rfl
  | cons e rest ih =>
      cases e with
      | committed header frames => simpa [rowsOf, samplesOf] using ih
      | advanced sample evaluation row =>
          by_cases hkey : sample.spec.key = key
          · simpa [rowsOf, samplesOf, hkey] using ih
          · simpa [rowsOf, samplesOf, hkey] using ih

/-- **A row never shows a transition before its record is committed.** -/
theorem Audited.lastTransition (h : Audited hooks history) (hrow : row ∈ rowsOf key history)
    (ht : row.lastTransitionId = some t) : CommittedTransition history t := by
  induction history using List.reverseRecOn generalizing row with
  | nil => simp [rowsOf] at hrow
  | append_singleton before e ih =>
      obtain ⟨hbefore, he⟩ := audited_snoc.mp h
      have hprefix : before <+: before ++ [e] := List.prefix_append _ _
      rw [rowsOf_append, List.mem_append] at hrow
      rcases hrow with hrow | hrow
      · exact (ih hbefore hrow ht).mono hprefix
      · cases e with
        | committed header frames => simp at hrow
        | advanced sample evaluation row' =>
            rw [rowsOf_advanced] at hrow
            by_cases hkey : sample.spec.key = key
            · rw [if_pos hkey, List.mem_singleton] at hrow
              subst hrow
              exact (he.lastTransition (fun _ hprevious => ih hbefore (hkey ▸ hprevious)) ht).mono
                hprefix
            · rw [if_neg hkey] at hrow
              simp at hrow

end Histories

/-! ## One run among others -/

section Stages

variable {hooks : Hooks} {cfg : PipelineConfig} {channels : List NotificationChannel}
  {run : PipelineRun} {sample : AlertSample} {evaluation : AlertEvaluation} {s s' : AlertStore}

/-- What a run relies on and guarantees: history grows, and stays audited. -/
def AlertStore.Grows (hooks : Hooks) (s s' : AlertStore) : Prop :=
  s'.Audited hooks ∧ s.history <+: s'.history

/-- Growth composes: the later history extends the earlier one and the audit carries over. -/
theorem AlertStore.Grows.trans {a b c : AlertStore} (hab : a.Grows hooks b) (hbc : b.Grows hooks c) :
    a.Grows hooks c := ⟨hbc.1, hab.2.trans hbc.2⟩

/-- A committed segment needs no justification. -/
theorem AlertStore.Audited.committed (h : s.Audited hooks) (header : SegmentHeaderV1)
    (frames : List SpoolFrame) : s.Grows hooks (s.remember (.committed header frames)) := by
  refine ⟨⟨fun key => ?_, audited_snoc.mpr ⟨h.history, trivial⟩⟩, List.prefix_append _ _⟩
  have hkept : rowsOf key (s.remember (.committed header frames)).history = rowsOf key s.history := by
    simp [remember]
  rw [hkept]
  exact h.rows key

/-- An advance over the row it evaluated is justified once its record is committed. -/
theorem AlertStore.Audited.advanced (h : s.Audited hooks)
    (hevaluate : evaluateCanaryStateRule hooks sample (s.rows.lookup sample.spec.key) =
      .ok evaluation)
    (hcommitted : ∀ draft, evaluation.draft = some draft →
      CommittedTransition s.history draft.data.transitionId) {row : AlertRuleState}
    (hrow : row = evaluation.update.row sample.spec.key evaluation.update.revision sample.now) :
    s.Grows hooks ⟨s.rows.insert sample.spec.key row,
      s.history ++ [.advanced sample evaluation row]⟩ := by
  refine ⟨⟨fun key => ?_, audited_snoc.mpr ⟨h.history, ?_, hrow, hcommitted⟩⟩,
    List.prefix_append _ _⟩
  · rw [rowsOf_append, rowsOf_advanced]
    by_cases hkey : sample.spec.key = key
    · subst hkey
      rw [AList.lookup_insert, if_pos rfl, List.getLast?_concat]
    · rw [AList.lookup_insert_ne (Ne.symm hkey), if_neg hkey, List.append_nil]
      exact h.rows key
  · rw [← h.rows]
    exact hevaluate

/-- The current value of a row, as some earlier moment showed it. -/
def Seen (key : AlertKey) (current : Option AlertRuleState) (s : AlertStore) : Prop :=
  ∃ before, before <+: s.history ∧ current = (rowsOf key before).getLast?

/-- What a job has seen of a key stays true while other jobs let the store grow. -/
theorem Seen.grows {key : AlertKey} {current : Option AlertRuleState} (h : Seen key current s)
    (hR : s.Grows hooks s') : Seen key current s' := by
  obtain ⟨before, hbefore, hcurrent⟩ := h
  exact ⟨before, hbefore.trans hR.2, hcurrent⟩

/-- **Where the revision is still the one seen, so is the row.** -/
theorem Seen.current {key : AlertKey} {current : Option AlertRuleState} (h : Seen key current s)
    (haudited : s.Audited hooks)
    (hrevision : observedRevision (s.rows.lookup key) = observedRevision current) :
    s.rows.lookup key = current := by
  obtain ⟨before, ⟨after, hafter⟩, rfl⟩ := h
  have hbefore : Milhouse.Audited hooks before := fun b e a hb =>
    haudited.history b e (a ++ after) (by rw [← hafter, hb]; simp)
  rw [haudited.rows] at hrevision ⊢
  rw [haudited.history.observedRevision, hbefore.observedRevision, ← hafter, rowsOf_append,
    List.length_append] at hrevision
  have hnone : rowsOf key after = [] := List.eq_nil_of_length_eq_zero (by omega)
  rw [← hafter, rowsOf_append, hnone, List.append_nil]

/-- A segment that was built for one record holds exactly that record. -/
theorem buildSegment_frames {sourceId : String} {record : RecordEnvelope} {stamp : Stamp}
    {header : SegmentHeaderV1} {frames : List SpoolFrame}
    (h : buildSegment hooks cfg sourceId record stamp = .ok (header, frames)) :
    frames.map SpoolFrame.record = [record] := by
  simp only [buildSegment] at h
  split at h
  · cases h
  · split at h
    · cases h
    · obtain ⟨header', -, h⟩ := Except.bind_eq_ok_iff.mp h
      obtain ⟨rfl, rfl⟩ := Prod.mk.inj (Except.ok.inj h)
      rfl

/-- The record of a transition's draft carries its id. -/
theorem finalize_transitionId {draft : AlertDraft} {record : RecordEnvelope}
    (h : finalize hooks cfg (draft.map .alert) = .ok record) :
    record.transitionId? = some draft.data.transitionId := by
  obtain ⟨summary, hdraft⟩ := finalize_draft h
  rw [RecordEnvelope.transitionId?, hdraft]
  rfl

/-- A transition's record is committed before `commitTransition` returns. -/
theorem commitTransition_safe :
    (commitTransition hooks cfg sample evaluation).Safe alertHandler (AlertStore.Grows hooks)
      (AlertStore.Grows hooks) (fun x t => ∀ outcome, x = .ok outcome → ∀ draft,
        evaluation.draft = some draft →
          CommittedTransition t.history draft.data.transitionId) s := by
  unfold commitTransition
  split
  · rename_i hnone
    exact fun outcome _ draft hdraft => by rw [hnone] at hdraft; cases hdraft
  · rename_i draft hsome
    split
    · exact fun outcome h => by cases h
    · rename_i record hfinalize
      split
      · exact fun outcome h => by cases h
      · rename_i header frames hbuild
        intro s₁ hR c r s' hperform
        have hstep := AlertStore.perform_commit hperform
        rcases hstep with rfl | ⟨rfl, e, rfl⟩
        · refine ⟨hR.1.committed header frames, ?_⟩
          have hmem : CommittedTransition (s₁.remember (.committed header frames)).history
              draft.data.transitionId := by
            refine ⟨record, ?_, finalize_transitionId hfinalize⟩
            have hframes := buildSegment_frames hbuild
            simp [committedRecords, AlertStore.remember, hframes]
          cases r with
          | error e => exact fun outcome h => by cases h
          | ok u =>
              cases u
              dsimp only
              split
              · exact fun outcome _ draft' hdraft' =>
                  (Option.some.inj (hsome.symm.trans hdraft')) ▸ hmem
              · exact fun outcome _ draft' hdraft' =>
                  (Option.some.inj (hsome.symm.trans hdraft')) ▸ hmem
        · exact ⟨⟨hR.1, List.prefix_rfl⟩, fun outcome h => by cases h⟩

/-- **Read, evaluate, commit, compare and set**: a run that is overtaken changes nothing. -/
theorem evaluateSample_safe :
    (evaluateSample hooks cfg sample).Safe alertHandler (AlertStore.Grows hooks)
      (AlertStore.Grows hooks) (fun _ _ => True) s := by
  unfold evaluateSample
  intro s₁ hR₁ c₁ r₁ t₁ hread
  obtain ⟨rfl, hcurrent⟩ := AlertStore.perform_readState hread
  refine ⟨⟨hR₁.1, List.prefix_rfl⟩, ?_⟩
  cases r₁ with
  | error e => trivial
  | ok current =>
      have hseen : Seen sample.spec.key current t₁ :=
        ⟨t₁.history, List.prefix_rfl, by rw [hcurrent current rfl, hR₁.1.rows]⟩
      simp only [Prog.bind]
      split
      · trivial
      · rename_i evaluation hevaluate
        -- what was seen stays seen while the record is being committed
        have hcommit : (commitTransition hooks cfg sample evaluation).Safe alertHandler
            (AlertStore.Grows hooks) (AlertStore.Grows hooks)
            (fun x t => Seen sample.spec.key current t ∧ ∀ outcome, x = .ok outcome → ∀ draft,
              evaluation.draft = some draft →
                CommittedTransition t.history draft.data.transitionId) t₁ :=
          commitTransition_safe.frame (fun t t' h hR => h.grows hR) hseen
        refine hcommit.seq fun x t₂ ⟨hseen₂, hcommitted₂⟩ => ?_
        cases x with
        | error e => trivial
        | ok outcome =>
            intro s₃ hR₃ c₃ r₃ t₃ hadvance
            rcases AlertStore.perform_advance hadvance with
              ⟨rfl, e, rfl⟩ | ⟨hrevision, row, rfl, hrow, rfl⟩
            · exact ⟨⟨hR₃.1, List.prefix_rfl⟩, trivial⟩
            · obtain ⟨hexpected, hnext⟩ := evaluate_revision hevaluate
              have hlookup := (hseen₂.grows hR₃).current hR₃.1 (hrevision.trans hexpected)
              refine ⟨hR₃.1.advanced ?_ (fun draft hdraft =>
                (hcommitted₂ outcome rfl draft hdraft).mono hR₃.2) ?_, trivial⟩
              · rw [hlookup]
                exact hevaluate
              · rw [hrow, hexpected, hnext]

/-- The whole alert stage lets the store grow at every one of its calls. -/
theorem driveAlerts_safe :
    (driveAlerts hooks cfg run).Safe alertHandler (AlertStore.Grows hooks) (AlertStore.Grows hooks)
      (fun _ _ => True) s := by
  refine Safe.foldUntil (I := fun _ _ => True) (fun rule _ totals t _ => ?_) trivial
  have hrule : (evaluateRule hooks cfg run rule).Safe alertHandler (AlertStore.Grows hooks)
      (AlertStore.Grows hooks) (fun _ _ => True) t := by
    unfold evaluateRule
    split
    · trivial
    · trivial
    · exact evaluateSample_safe
  exact hrule.seq fun _ _ _ => trivial

/-- A stage that only commits segments keeps every history audited. -/
theorem emitIntent_safe {now : Instant} {alert : RecordEnvelope} {channel : NotificationChannel}
    {totals : IntentTotals} :
    (emitIntent hooks cfg now alert channel totals).Safe alertHandler (AlertStore.Grows hooks)
      (AlertStore.Grows hooks) (fun _ _ => True) s := by
  unfold emitIntent
  dsimp only
  split
  · trivial
  · rename_i header frames _
    intro s₁ hR c r s' hperform
    have hG : s₁.Grows hooks s' := by
      rcases AlertStore.perform_commit hperform with rfl | ⟨rfl, -⟩
      · exact hR.1.committed header frames
      · exact ⟨hR.1, List.prefix_rfl⟩
    refine ⟨hG, ?_⟩
    cases r with
    | error e => trivial
    | ok u => trivial

/-- So does the intent stage, which commits outbox records and advances no alert. -/
theorem driveNotificationIntents_safe {now : Instant} {committed : List RecordEnvelope} :
    (driveNotificationIntents hooks cfg channels now committed).Safe alertHandler
      (AlertStore.Grows hooks) (AlertStore.Grows hooks) (fun _ _ => True) s := by
  refine Safe.foldUntil (I := fun _ _ => True) (fun alert _ totals t _ => ?_) trivial
  have hchannels : (foldUntil channels totals fun totals channel => do
      if channel.admits alert then pure (true, ← emitIntent hooks cfg now alert channel totals)
      else pure (true, totals)).Safe alertHandler (AlertStore.Grows hooks) (AlertStore.Grows hooks)
        (fun _ _ => True) t := by
    refine Safe.foldUntil (I := fun _ _ => True) (fun channel _ totals t _ => ?_) trivial
    split
    · exact emitIntent_safe.seq fun _ _ _ => trivial
    · trivial
  exact hchannels.seq fun _ _ _ => trivial

/-- **Every run keeps the history audited**, whatever the others do. -/
theorem pipelineStages_safe :
    (pipelineStages hooks cfg channels run).Safe alertHandler (AlertStore.Grows hooks)
      (AlertStore.Grows hooks) (fun _ _ => True) s :=
  driveAlerts_safe.seq fun _ _ _ => driveNotificationIntents_safe.seq fun _ _ _ => trivial

end Stages

/-! ## Every run of the system -/

/-- What a process of the pipeline starts with. -/
structure PipelineJob where
  config : PipelineConfig
  channels : List NotificationChannel
  run : PipelineRun

def PipelineJob.prog (hooks : Hooks) (job : PipelineJob) : AlertProg Unit :=
  pipelineStages hooks job.config job.channels job.run >>= fun _ => pure ()

/-- Any number of pipeline processes on one control database and one spool. -/
def pipelineSystem (hooks : Hooks) :
    System (Pool alertSignature AlertStore PipelineJob) (Pool.Move PipelineJob AlertChoice) :=
  Pool.system alertHandler (PipelineJob.prog hooks) .empty

/-- Every reachable store of the pipeline has an audited history, whatever the interleaving of its
jobs. -/
theorem pipelineSystem_audited {hooks : Hooks} {tr : List (Pool.Move PipelineJob AlertChoice)}
    {w : Pool alertSignature AlertStore PipelineJob} (hrun : Run (pipelineSystem hooks) tr w) :
    w.store.Audited hooks := by
  have hempty : AlertStore.empty.Audited hooks := ⟨fun _ => rfl, audited_nil⟩
  refine Pool.invariant (R := AlertStore.Grows hooks) (fun s s' h => h.1)
    (fun s h => ⟨h, List.prefix_rfl⟩) (fun a b c => AlertStore.Grows.trans) ?_ hempty hrun
  exact fun job s _ => pipelineStages_safe.seq fun _ _ _ => trivial

/-- **The alert frontier never forks and never runs ahead of the committed alerts.** In every state
any number of interleaved, failing and killed pipeline runs can reach: each row is the fold of the
engine over the samples of its successful advances, and so was every row written before it; their
revisions are 1, 2, 3, … without a gap or a second winner; and a row that shows a transition was
written after an alert record with that transition id had been committed. -/
theorem alertFrontier {hooks : Hooks} {tr : List (Pool.Move PipelineJob AlertChoice)}
    {w : Pool alertSignature AlertStore PipelineJob} (hrun : Run (pipelineSystem hooks) tr w) :
    (∀ key, w.store.rows.lookup key = foldSamples hooks (samplesOf key w.store.history)) ∧
    (∀ key, (rowsOf key w.store.history).map AlertRuleState.revision =
      List.range' 1 (samplesOf key w.store.history).length) ∧
    ∀ before sample evaluation row after,
      w.store.history = before ++ .advanced sample evaluation row :: after →
      some row = foldSamples hooks (samplesOf sample.spec.key before ++ [sample]) ∧
      ∀ t, row.lastTransitionId = some t → CommittedTransition before t := by
  have haudited := pipelineSystem_audited hrun
  refine ⟨fun key => ?_, fun key => ?_, fun before sample evaluation row after hsplit => ?_⟩
  · rw [haudited.rows, haudited.history.rows_eq_fold]
  · rw [haudited.history.revisions, length_rowsOf]
  · -- the history up to and with the advance is audited on its own
    have hupto : Milhouse.Audited hooks (before ++ [.advanced sample evaluation row]) :=
      fun b e a hb => haudited.history b e (a ++ after) (by
        have happend := congrArg (· ++ after) hb
        simpa [hsplit] using happend)
    obtain ⟨hbefore, hjustified⟩ := audited_snoc.mp hupto
    refine ⟨?_, fun t ht => ?_⟩
    · have hfold := hupto.rows_eq_fold sample.spec.key
      rw [rowsOf_append, rowsOf_advanced, if_pos rfl, List.getLast?_concat, samplesOf_append,
        samplesOf_advanced, if_pos rfl] at hfold
      exact hfold
    · exact hjustified.lastTransition (fun _ => hbefore.lastTransition) ht

/-- A process of the sample pipeline. -/
def sampleJob (second : Nat) (outcome : AlertOutcome) (h : second < 60) : PipelineJob :=
  ⟨samplePipeline, [sampleChannel], samplePipelineRun second outcome h⟩

/-- Two runs fire at once over the same row, and the second loses; a third resolves the alert, and
is killed before it notifies anyone. -/
def sampleContest : List (Pool.Move PipelineJob AlertChoice) :=
  [.start 0 (sampleJob 1 .failure (by decide)), .start 1 (sampleJob 2 .failure (by decide)),
    .run 0 .ok, .run 1 .ok, .run 0 .ok, .run 1 .ok, .run 0 (.txn .none), .run 1 (.txn .none),
    .run 0 .ok, .stop 0, .stop 1,
    .start 2 (sampleJob 3 .success (by decide)), .run 2 .ok, .run 2 .ok, .run 2 (.txn .none),
    .crash]

/-- The transition that an advance leaves in its row. -/
def AlertEvent.transition? : AlertEvent → Option String
  | .committed .. => none
  | .advanced _ _ row => row.lastTransitionId

theorem sampleContest_frontier : ∃ w, Run (pipelineSystem sampleHooks) sampleContest w ∧
    (w.store.rows.lookup ("r", 1)).map (fun row => (row.revision, row.lastTransitionId)) =
      some (2, some "mh_atr1_resolved3000") ∧
    w.store.rows.lookup ("r", 1) =
      foldSamples sampleHooks (samplesOf ("r", 1) w.store.history) ∧
    (rowsOf ("r", 1) w.store.history).map AlertRuleState.revision =
      List.range' 1 (samplesOf ("r", 1) w.store.history).length ∧
    ∃ before last, w.store.history = before ++ [last] ∧
      last.transition? = some "mh_atr1_resolved3000" ∧
      CommittedTransition before "mh_atr1_resolved3000" := by
  obtain ⟨w, hrun, hrow, hlast⟩ : ∃ w, Run (pipelineSystem sampleHooks) sampleContest w ∧
      ((w.store.rows.lookup ("r", 1)).map (fun row => (row.revision, row.lastTransitionId)) =
        some (2, some "mh_atr1_resolved3000") ∧
      w.store.history.getLast?.bind AlertEvent.transition? = some "mh_atr1_resolved3000") :=
    exists_run_of_exec (by decide +kernel)
  obtain ⟨hfold, hrevisions, hcommitted⟩ := alertFrontier hrun
  obtain ⟨last, hlast, htransition⟩ := Option.bind_eq_some_iff.mp hlast
  obtain ⟨before, hhistory⟩ := List.getLast?_eq_some_iff.mp hlast
  refine ⟨w, hrun, hrow, hfold _, hrevisions _, before, last, hhistory, htransition, ?_⟩
  cases last with
  | committed header frames => cases htransition
  | advanced sample evaluation row =>
      exact (hcommitted before sample evaluation row [] hhistory).2 _ htransition

end Milhouse
