import Milhouse.Alerts.Frontier

/-!
# Milhouse — every committed alert is notified, where nothing goes wrong in between

Intents are derived only from the alerts the same run committed, after each rule's row has advanced.
A run that dies, loses an advance or loses an intent between the two leaves an alert that no later
run looks at again: the row is already in its new state. `Steady` is the condition that this does
not happen. Under it a run returns only when it has settled every alert it committed
(**`pipelineStages_ends`**), so that in every run of the system

* **`steady_notified`** — once no process is at work, every committed alert has its intents.
-/

namespace Milhouse

open Interaction Interaction.Prog Transition

/-! ## What is owed -/

/-- The record is an alert. -/
def RecordEnvelope.isAlert (record : RecordEnvelope) : Bool :=
  match record.draft.data with
  | .alert _ => true
  | .intent _ => false

/-- The record is an intent to notify `channel` that cites `alert`. -/
def RecordEnvelope.cites (record alert : RecordEnvelope) (channel : NotificationChannel) : Bool :=
  match record.draft.data with
  | .alert _ => false
  | .intent data => data.channelId = channel.id && data.evidenceIds = [alert.recordId.val]

/-- The alert has, for each channel that admits it, an intent among the records. -/
def NotifiedOf (channels : List NotificationChannel) (records : List RecordEnvelope)
    (alert : RecordEnvelope) : Prop :=
  ∀ channel ∈ channels, channel.admits alert → ∃ intent ∈ records, intent.cites alert channel

/-- Every alert among the records is notified by the records. -/
def Notified (channels : List NotificationChannel) (records : List RecordEnvelope) : Prop :=
  ∀ alert ∈ records, alert.isAlert → NotifiedOf channels records alert

/-- The records an operation committed, where its response says so. -/
def committedNow : (o : AlertOp) → o.Resp → List RecordEnvelope
  | .commit _ frames _, .ok () => frames.map SpoolFrame.record
  | _, _ => []

/-- The records a process committed. -/
def committedBy (done : List (Performed alertSignature)) : List RecordEnvelope :=
  done.flatMap fun x => committedNow x.1 x.2

/-! ## The condition -/

/-- The alert has a committable intent for each channel that admits it. -/
def Intendable (hooks : Hooks) (cfg : PipelineConfig) (channels : List NotificationChannel)
    (now : Instant) (alert : RecordEnvelope) : Prop :=
  ∀ channel ∈ channels, channel.admits alert →
    ∃ segment, intentSegment hooks cfg alert channel now = .ok segment

/-- The responses of a run in which nothing goes wrong once an alert is committed: a commit of
alerts that returns is of alerts whose intents can be built, the advance that follows it succeeds,
and so does every commit of intents. -/
def SteadyResponse (hooks : Hooks) (cfg : PipelineConfig) (channels : List NotificationChannel) :
    (o : AlertOp) → o.Resp → Prop
  | .readState _, _ => True
  | .commit _ frames now, .ok () =>
      ∀ frame ∈ frames, frame.record.isAlert → Intendable hooks cfg channels now frame.record
  | .commit _ frames _, .error _ => ∀ frame ∈ frames, frame.record.isAlert
  | .advance _ evaluation, .error _ => evaluation.draft = none
  | .advance .., .ok _ => True

/-! ## What a run has done when it returns -/

section Stages

variable {hooks : Hooks} {cfg : PipelineConfig} {channels : List NotificationChannel}
  {run : PipelineRun} {sample : AlertSample} {evaluation : AlertEvaluation}
  {done : List (Performed alertSignature)}

@[simp] theorem committedBy_append (before after : List (Performed alertSignature)) :
    committedBy (before ++ after) = committedBy before ++ committedBy after :=
  List.flatMap_append ..

@[simp] theorem committedBy_singleton (x : Performed alertSignature) :
    committedBy [x] = committedNow x.1 x.2 := by
  simp [committedBy]

@[simp] theorem committedNow_commit (header : SegmentHeaderV1) (frames : List SpoolFrame)
    (now : Instant) :
    committedNow (.commit header frames now) (.ok ()) = frames.map SpoolFrame.record := rfl

@[simp] theorem committedNow_failed (header : SegmentHeaderV1) (frames : List SpoolFrame)
    (now : Instant) (e : PipelineError) :
    committedNow (.commit header frames now) (.error e) = [] := rfl

@[simp] theorem committedNow_readState (key : AlertKey) (r : (AlertOp.readState key).Resp) :
    committedNow (.readState key) r = [] := rfl

@[simp] theorem committedNow_advance (r : (AlertOp.advance sample evaluation).Resp) :
    committedNow (.advance sample evaluation) r = [] := rfl

/-- An alert with its intents keeps them while records are added. -/
theorem NotifiedOf.mono {records records' : List RecordEnvelope} {alert : RecordEnvelope}
    (h : NotifiedOf channels records alert) (hsub : records ⊆ records') :
    NotifiedOf channels records' alert := by
  intro channel hchannel hadmits
  obtain ⟨intent, hintent, hcites⟩ := h channel hchannel hadmits
  exact ⟨intent, hsub hintent, hcites⟩

/-- The record of an alert draft is an alert. -/
theorem finalize_isAlert {draft : AlertDraft} {record : RecordEnvelope}
    (h : finalize hooks cfg (draft.map .alert) = .ok record) : record.isAlert = true := by
  obtain ⟨summary, hdraft⟩ := finalize_draft h
  rw [RecordEnvelope.isAlert, hdraft]
  rfl

/-- What one rule adds to what a run has committed: the record of its outcome, with intents to
come. -/
structure RuleCommits (hooks : Hooks) (cfg : PipelineConfig) (channels : List NotificationChannel)
    (now : Instant) (before : List RecordEnvelope) (x : Except PipelineError RuleOutcome)
    (done : List (Performed alertSignature)) : Prop where
  listed : ∀ record ∈ committedBy done, record ∈ before ∨
    ∃ outcome, x = .ok outcome ∧ outcome.committed = some record
  intendable : ∀ outcome record, x = .ok outcome → outcome.committed = some record →
    Intendable hooks cfg channels now record

/-- A rule that commits nothing, and returns no record. -/
theorem RuleCommits.nothing {now : Instant} {x : Except PipelineError RuleOutcome}
    {before : List RecordEnvelope} (hbefore : committedBy done = before)
    (hx : ∀ outcome, x = .ok outcome → outcome.committed = none) :
    RuleCommits hooks cfg channels now before x done := by
  refine ⟨fun record hrecord => Or.inl (hbefore ▸ hrecord), fun outcome record hok hsome => ?_⟩
  rw [hx outcome hok] at hsome
  cases hsome

/-- A rule that commits a record and returns it. -/
theorem RuleCommits.record {now : Instant} {before : List RecordEnvelope} {record : RecordEnvelope}
    {outcome : RuleOutcome} (hdone : committedBy done = before ++ [record])
    (houtcome : outcome.committed = some record)
    (hintendable : Intendable hooks cfg channels now record) :
    RuleCommits hooks cfg channels now before (.ok outcome) done := by
  refine ⟨fun other hother => ?_, fun outcome' record' hok hsome => ?_⟩
  · rw [hdone, List.mem_append, List.mem_singleton] at hother
    exact hother.imp_right fun h => ⟨outcome, rfl, by rw [h]; exact houtcome⟩
  · obtain rfl := Except.ok.inj hok
    rw [houtcome] at hsome
    exact Option.some.inj hsome ▸ hintendable

/-- `commitTransition` either commits nothing or returns the record it committed. -/
theorem commitTransition_ends :
    (commitTransition hooks cfg sample evaluation).Ends (SteadyResponse hooks cfg channels)
      (fun x tr => RuleCommits hooks cfg channels sample.now (committedBy done) x tr ∧
        (evaluation.draft = none → committedBy tr = committedBy done)) done := by
  unfold commitTransition
  split
  · exact ⟨.nothing rfl fun outcome h => by cases h; rfl, fun _ => rfl⟩
  · rename_i draft hsome
    have hfail : ∀ (e : PipelineError) tr, committedBy tr = committedBy done →
        RuleCommits hooks cfg channels sample.now (committedBy done) (.error e) tr :=
      fun e tr htr => .nothing htr fun outcome h => by cases h
    split
    · exact ⟨hfail _ _ rfl, fun _ => rfl⟩
    · rename_i record hfinalize
      split
      · exact ⟨hfail _ _ rfl, fun _ => rfl⟩
      · rename_i header frames hbuild
        have hframes := buildSegment_frames hbuild
        intro r hr
        cases r with
        | error e => exact ⟨hfail _ _ (by simp), fun _ => by simp⟩
        | ok u =>
            have hintendable : Intendable hooks cfg channels sample.now record := by
              obtain ⟨frame, hframe, hrecord⟩ : ∃ frame ∈ frames, frame.record = record :=
                List.mem_map.mp (by rw [hframes]; exact List.mem_cons_self)
              have hall := hr frame hframe (by rw [hrecord]; exact finalize_isAlert hfinalize)
              rwa [hrecord] at hall
            have hdone : committedBy (done ++ [⟨.commit header frames sample.now,
                (.ok () : Except PipelineError Unit)⟩]) = committedBy done ++ [record] := by
              rw [committedBy_append, committedBy_singleton, committedNow_commit, hframes]
            simp only [Prog.bind]
            split
            · exact ⟨.record hdone rfl hintendable, fun h => by rw [hsome] at h; cases h⟩
            · exact ⟨.record hdone rfl hintendable, fun h => by rw [hsome] at h; cases h⟩

/-- **A rule that committed an alert returns it**, where its advance succeeds. -/
theorem evaluateSample_ends :
    (evaluateSample hooks cfg sample).Ends (SteadyResponse hooks cfg channels)
      (RuleCommits hooks cfg channels sample.now (committedBy done)) done := by
  unfold evaluateSample
  intro r₁ _
  have hread : committedBy (done ++ [⟨.readState sample.spec.key, r₁⟩]) = committedBy done := by
    rw [committedBy_append, committedBy_singleton]
    exact List.append_nil _
  have hfail : ∀ (e : PipelineError) tr, committedBy tr = committedBy done →
      RuleCommits hooks cfg channels sample.now (committedBy done) (.error e) tr :=
    fun e tr htr => .nothing htr fun outcome h => by cases h
  cases r₁ with
  | error e => exact hfail _ _ hread
  | ok current =>
      simp only [Prog.bind]
      split
      · exact hfail _ _ hread
      · rename_i evaluation hevaluate
        refine commitTransition_ends.seq fun x tr hended => ?_
        obtain ⟨hcommits, hnone⟩ := hended
        rw [hread] at hcommits hnone
        cases x with
        | error e => exact hcommits
        | ok outcome =>
            intro r₂ hr₂
            have hadvance : committedBy (tr ++ [⟨.advance sample evaluation, r₂⟩]) =
                committedBy tr := by
              rw [committedBy_append, committedBy_singleton]
              exact List.append_nil _
            cases r₂ with
            | error e => exact hfail _ _ (hadvance.trans (hnone hr₂))
            | ok row => exact ⟨fun record h => hcommits.listed record (hadvance ▸ h),
                hcommits.intendable⟩

theorem sampleFor_now {rule : CanaryStateAlertRule} (h : run.sampleFor rule = .ok (some sample)) :
    sample.now = run.now := by
  unfold PipelineRun.sampleFor at h
  split at h
  · split at h
    · cases h
    · cases h
    · obtain rfl := Option.some.inj (Except.ok.inj h)
      rfl
  · cases h

/-- Every record committed so far is listed, and those listed have intents to come. -/
def Listed (hooks : Hooks) (cfg : PipelineConfig) (channels : List NotificationChannel)
    (now : Instant) (totals : AlertTotals) (done : List (Performed alertSignature)) : Prop :=
  (∀ record ∈ committedBy done, record ∈ totals.committed) ∧
    ∀ record ∈ totals.committed, Intendable hooks cfg channels now record

/-- A steady alert stage ends with the alerts it committed, each with the samples it came from. -/
theorem driveAlerts_ends :
    (driveAlerts hooks cfg run).Ends (SteadyResponse hooks cfg channels)
      (Listed hooks cfg channels run.now) [] := by
  refine Ends.foldUntil (I := fun _ => Listed hooks cfg channels run.now) ?_
    ⟨fun record h => by simp [committedBy] at h, fun record h => by simp at h⟩
  intro before rule after _ totals tr ⟨hlisted, hintendable⟩
  have hrule : (evaluateRule hooks cfg run rule).Ends (SteadyResponse hooks cfg channels)
      (RuleCommits hooks cfg channels run.now (committedBy tr)) tr := by
    unfold evaluateRule
    split
    · exact .nothing rfl fun outcome h => by cases h
    · exact .nothing rfl fun outcome h => by cases h; rfl
    · rename_i sample hsample
      rw [← sampleFor_now hsample]
      exact evaluateSample_ends
  refine hrule.seq fun x tr' hcommits => ⟨rfl, ?_⟩
  cases x with
  | error e =>
      refine ⟨fun record hrecord => ?_, hintendable⟩
      rcases hcommits.listed record hrecord with hbefore | ⟨outcome, h, _⟩
      · exact hlisted record hbefore
      · cases h
  | ok outcome =>
      refine ⟨fun record hrecord => ?_, fun record hrecord => ?_⟩
      · rcases hcommits.listed record hrecord with hbefore | ⟨outcome', h, hsome⟩
        · exact List.mem_append_left _ (hlisted record hbefore)
        · obtain rfl := Except.ok.inj h
          exact List.mem_append_right _ (by rw [hsome]; exact List.mem_singleton.mpr rfl)
      · rcases List.mem_append.mp hrecord with hrecord | hrecord
        · exact hintendable record hrecord
        · exact hcommits.intendable outcome record rfl (Option.mem_toList.mp hrecord)

/-- The segment of an intent holds one record, which cites its alert. -/
theorem intentSegment_cites {alert : RecordEnvelope} {channel : NotificationChannel} {now : Instant}
    {header : SegmentHeaderV1} {frames : List SpoolFrame}
    (h : intentSegment hooks cfg alert channel now = .ok (header, frames)) :
    ∃ record, frames.map SpoolFrame.record = [record] ∧ record.cites alert channel = true ∧
      record.isAlert = false := by
  obtain ⟨draft, hdraft, h⟩ := Except.bind_eq_ok_iff.mp h
  obtain ⟨record, hfinalize, hbuild⟩ := Except.bind_eq_ok_iff.mp h
  obtain ⟨summary, hrecord⟩ := finalize_draft hfinalize
  have hdata : draft.data.channelId = channel.id ∧ draft.data.evidenceIds = [alert.recordId.val] := by
    unfold notificationIntentDraft at hdraft
    generalize now.addSeconds nominalExpiry = expiry at hdraft
    unfold notificationIntentDraftUntil at hdraft
    split at hdraft
    · split at hdraft
      · cases hdraft
      · rw [← (Except.ite_eq_ok_iff.mp hdraft).2]
        exact ⟨rfl, rfl⟩
    · cases hdraft
  refine ⟨record, buildSegment_frames hbuild, ?_, ?_⟩
  · rw [RecordEnvelope.cites, hrecord]
    simp [Draft.map, Payload.setSummary, hdata]
  · rw [RecordEnvelope.isAlert, hrecord]
    rfl

/-- Nothing but intents was committed since. -/
def OnlyIntents (before : List RecordEnvelope) (done : List (Performed alertSignature)) : Prop :=
  ∀ record ∈ committedBy done, record ∈ before ∨ record.isAlert = false

theorem committedBy_subset {tr : List (Performed alertSignature)} (h : done <+: tr) :
    committedBy done ⊆ committedBy tr := by
  obtain ⟨rest, rfl⟩ := h
  rw [committedBy_append]
  exact List.subset_append_left _ _

/-- **One intent**: it can be built, and its commit succeeds. -/
theorem emitIntent_ends {now : Instant} {alert : RecordEnvelope} {channel : NotificationChannel}
    {totals : IntentTotals} {before : List RecordEnvelope}
    (hbuild : ∃ segment, intentSegment hooks cfg alert channel now = .ok segment)
    (honly : OnlyIntents before done) :
    (emitIntent hooks cfg now alert channel totals).Ends (SteadyResponse hooks cfg channels)
      (fun _ tr => OnlyIntents before tr ∧ ∃ intent ∈ committedBy tr, intent.cites alert channel)
      done := by
  obtain ⟨⟨header, frames⟩, hsegment⟩ := hbuild
  obtain ⟨record, hframes, hcites, hintent⟩ := intentSegment_cites hsegment
  simp only [emitIntent, hsegment]
  intro r hr
  cases r with
  | error e =>
      -- a commit of intents that fails is not steady
      obtain ⟨frame, hframe, hrecord⟩ : ∃ frame ∈ frames, frame.record = record :=
        List.mem_map.mp (by rw [hframes]; exact List.mem_cons_self)
      have halert := hr frame hframe
      rw [hrecord, hintent] at halert
      cases halert
  | ok u =>
      have hadded : committedBy (done ++ [⟨.commit header frames now,
          (.ok () : Except PipelineError Unit)⟩]) = committedBy done ++ [record] := by
        rw [committedBy_append, committedBy_singleton, committedNow_commit, hframes]
      refine ⟨fun other hother => ?_, record, ?_, hcites⟩
      · rw [hadded, List.mem_append, List.mem_singleton] at hother
        rcases hother with hother | rfl
        · exact honly other hother
        · exact Or.inr hintent
      · rw [hadded]
        exact List.mem_append_right _ (List.mem_singleton.mpr rfl)

/-- A steady intent stage ends with an intent for each alert and each channel that admits it. -/
theorem driveNotificationIntents_ends {now : Instant} {committed before : List RecordEnvelope}
    (hintendable : ∀ alert ∈ committed, Intendable hooks cfg channels now alert)
    (honly : OnlyIntents before done) :
    (driveNotificationIntents hooks cfg channels now committed).Ends
      (SteadyResponse hooks cfg channels)
      (fun _ tr => OnlyIntents before tr ∧
        ∀ alert ∈ committed, NotifiedOf channels (committedBy tr) alert) done := by
  -- The outer loop runs over the alerts, with those so far notified.
  refine Ends.foldUntil (I := fun alerts _ tr => OnlyIntents before tr ∧
    ∀ alert ∈ alerts, NotifiedOf channels (committedBy tr) alert) ?_ ⟨honly, by simp⟩
  intro alerts alert rest hsplit totals tr ⟨honly, halerts⟩
  have halert : Intendable hooks cfg channels now alert := hintendable alert (by simp [hsplit])
  -- The inner one runs over the channels of one alert.
  have hchannels : (foldUntil channels totals fun totals channel => do
      if channel.admits alert then pure (true, ← emitIntent hooks cfg now alert channel totals)
      else pure (true, totals)).Ends (SteadyResponse hooks cfg channels)
        (fun _ tr => OnlyIntents before tr ∧ NotifiedOf channels (committedBy tr) alert) tr := by
    refine Ends.foldUntil (I := fun channels _ tr => OnlyIntents before tr ∧
      NotifiedOf channels (committedBy tr) alert) ?_ ⟨honly, fun _ h => by simp at h⟩
    intro earlier channel later hsplit' totals tr₁ ⟨honly₁, hearlier⟩
    split
    · rename_i hadmits
      have hemit : (emitIntent hooks cfg now alert channel totals).Ends
          (SteadyResponse hooks cfg channels) (fun _ tr => OnlyIntents before tr ∧
            ∃ intent ∈ committedBy tr, intent.cites alert channel) tr₁ :=
        emitIntent_ends (halert channel (by simp [hsplit']) hadmits) honly₁
      refine hemit.extends.seq fun _ tr₂ ⟨hgrown, honly₂, hintent⟩ => ⟨rfl, honly₂, ?_⟩
      intro channel' hchannel'
      rcases List.mem_append.mp hchannel' with hchannel' | hchannel'
      · exact hearlier.mono (committedBy_subset hgrown) channel' hchannel'
      · rw [List.mem_singleton.mp hchannel']
        exact fun _ => hintent
    -- A channel that does not admit the alert is owed nothing.
    · rename_i hrefuses
      refine ⟨rfl, honly₁, fun channel' hchannel' hadmits' => ?_⟩
      rcases List.mem_append.mp hchannel' with hchannel' | hchannel'
      · exact hearlier channel' hchannel' hadmits'
      · rw [List.mem_singleton.mp hchannel'] at hadmits'
        exact absurd hadmits' hrefuses
  refine hchannels.extends.seq fun _ tr₁ ⟨hgrown, honly₁, hnotified⟩ => ⟨rfl, honly₁, ?_⟩
  intro alert' halert'
  rcases List.mem_append.mp halert' with halert' | halert'
  · exact (halerts alert' halert').mono (committedBy_subset hgrown)
  · rw [List.mem_singleton.mp halert']
    exact hnotified

/-- **A steady run that returns has notified every alert it committed.** -/
theorem pipelineStages_ends :
    (pipelineStages hooks cfg channels run).Ends (SteadyResponse hooks cfg channels)
      (fun _ done => Notified channels (committedBy done)) [] := by
  refine driveAlerts_ends.seq fun alerts tr ⟨hlisted, hintendable⟩ => ?_
  have hintents : (driveNotificationIntents hooks cfg channels run.now alerts.committed).Ends
      (SteadyResponse hooks cfg channels) (fun _ tr' => OnlyIntents (committedBy tr) tr' ∧
        ∀ alert ∈ alerts.committed, NotifiedOf channels (committedBy tr') alert) tr :=
    driveNotificationIntents_ends hintendable fun record hrecord => Or.inl hrecord
  refine hintents.seq fun intents tr' ⟨honly, hnotified⟩ alert halert hisAlert => ?_
  rcases honly alert halert with hbefore | hintent
  · exact hnotified alert (hlisted alert hbefore)
  · rw [hintent] at hisAlert
    cases hisAlert

end Stages

/-! ## Steady runs of the system -/

section Runs

variable {hooks : Hooks} {channels : List NotificationChannel}
  {w w' : Pool alertSignature AlertStore PipelineJob}

/-- A process that may be ended: it has returned, or has notified the alerts it committed. -/
def Settled (channels : List NotificationChannel) (p : Proc alertSignature PipelineJob) : Prop :=
  p.prog.value?.isSome ∨ Notified channels (committedBy p.done)

/-- **The condition.** Every process has these channels; no commit takes effect and fails; once a
process has committed an alert nothing fails that its intents need; and no process is ended while it
owes an intent. -/
def Steady (hooks : Hooks) (channels : List NotificationChannel)
    (w : Pool alertSignature AlertStore PipelineJob) : Pool.Move PipelineJob AlertChoice → Prop
  | .start _ job => job.channels = channels
  | .run i c => c ≠ .lost ∧ ∀ p o k r s', w.procs.lookup i = some p → p.prog = .op o k →
      w.store.perform o c = some (r, s') → SteadyResponse hooks p.input.config channels o r
  | .stop i => ∀ p, w.procs.lookup i = some p → Settled channels p
  | .crash => ∀ i p, w.procs.lookup i = some p → Settled channels p

/-- What holds between the store and the processes of a steady run. -/
structure SteadyPool (hooks : Hooks) (channels : List NotificationChannel)
    (w : Pool alertSignature AlertStore PipelineJob) : Prop where
  ends : ∀ i p, w.procs.lookup i = some p →
    p.prog.Ends (SteadyResponse hooks p.input.config channels)
      (fun _ done => Notified channels (committedBy done)) p.done
  durable : ∀ i p, w.procs.lookup i = some p →
    committedBy p.done ⊆ committedRecords w.store.history
  owed : ∀ alert ∈ committedRecords w.store.history, alert.isAlert →
    NotifiedOf channels (committedRecords w.store.history) alert ∨
      ∃ i p, w.procs.lookup i = some p ∧ alert ∈ committedBy p.done

/-- What an operation that is not cut short adds to the committed records is what its process has
committed. -/
theorem AlertStore.perform_committed {s s' : AlertStore} {o : AlertOp} {c : AlertChoice}
    {r : o.Resp} (h : s.perform o c = some (r, s')) (hlost : c ≠ .lost) :
    committedRecords s'.history =
      committedRecords s.history ++ committedNow o r := by
  cases o with
  | readState key =>
      obtain ⟨rfl, -⟩ := perform_readState h
      rw [committedNow_readState, List.append_nil]
  | commit header frames now =>
      cases c with
      | lost => exact absurd rfl hlost
      | txn fault => cases h
      | ok =>
          obtain ⟨rfl, rfl⟩ := Prod.mk.inj (Option.some.inj h)
          simp [remember, committedRecords]
      | fail =>
          obtain ⟨rfl, rfl⟩ := Prod.mk.inj (Option.some.inj h)
          simp
  | advance sample evaluation =>
      rw [committedNow_advance, List.append_nil]
      rcases perform_advance h with ⟨rfl, -⟩ | ⟨-, row, -, -, rfl⟩
      · rfl
      · simp [committedRecords]

/-- A settled process leaves its alerts notified. -/
theorem SteadyPool.settled (h : SteadyPool hooks channels w) {i : Nat}
    {p : Proc alertSignature PipelineJob} (hlookup : w.procs.lookup i = some p)
    (hsettled : Settled channels p) {alert : RecordEnvelope} (halert : alert ∈ committedBy p.done)
    (hisAlert : alert.isAlert) : NotifiedOf channels (committedRecords w.store.history) alert := by
  have hnotified : Notified channels (committedBy p.done) := by
    rcases hsettled with hreturned | hnotified
    · have hends := h.ends i p hlookup
      cases hprog : p.prog with
      | ret a =>
          rw [hprog] at hends
          exact hends
      | op o k => simp [hprog, Prog.value?] at hreturned
    · exact hnotified
  exact (hnotified alert halert hisAlert).mono (h.durable i p hlookup)

/-- A steady step of one process leaves the pool steady. -/
theorem SteadyPool.step (h : SteadyPool hooks channels w) {m : Pool.Move PipelineJob AlertChoice}
    (hsteady : Steady hooks channels w m)
    (hstep : w.step alertHandler (PipelineJob.prog hooks) m = some w') :
    SteadyPool hooks channels w' := by
  cases Pool.step_moved hstep with
  -- A job that starts has committed nothing yet, so nothing is owed by it.
  | start i job hfree =>
      refine ⟨fun j q hq => ?_, fun j q hq => ?_, fun alert halert hisAlert => ?_⟩
      · rcases Pool.lookup_insert_cases hq with ⟨-, rfl⟩ | hq
        · have hchannels : job.channels = channels := hsteady
          have hends : (pipelineStages hooks job.config job.channels job.run).Ends
              (SteadyResponse hooks job.config job.channels)
              (fun _ done => Notified job.channels (committedBy done)) [] := pipelineStages_ends
          rw [hchannels] at hends
          refine Ends.seq ?_ fun _ tr htr => htr
          rw [hchannels]
          exact hends
        · exact h.ends j q hq
      · rcases Pool.lookup_insert_cases hq with ⟨-, rfl⟩ | hq
        · exact List.nil_subset _
        · exact h.durable j q hq
      · rcases h.owed alert halert hisAlert with hnotified | ⟨j, p, hp, hmem⟩
        · exact Or.inl hnotified
        · refine Or.inr ⟨j, p, ?_, hmem⟩
          have hne : j ≠ i := by
            rintro rfl
            rw [hfree] at hp
            cases hp
          rwa [AList.lookup_insert_ne hne]
  | @run i c p o k r s' hlookup hprog hperform =>
      obtain ⟨hlost, hresponse⟩ := hsteady
      have hok := hresponse p o k r s' hlookup hprog hperform
      -- A steady call answers truthfully: what the job has seen committed is what the store has.
      have hrecords : committedRecords s'.history =
          committedRecords w.store.history ++ committedBy [⟨o, r⟩] := by
        rw [committedBy_singleton]
        exact AlertStore.perform_committed hperform hlost
      have hgrown : committedRecords w.store.history ⊆ committedRecords s'.history := by
        rw [hrecords]
        exact List.subset_append_left _ _
      refine ⟨fun j q hq => ?_, fun j q hq => ?_, fun alert halert hisAlert => ?_⟩
      · rcases Pool.lookup_insert_cases hq with ⟨-, rfl⟩ | hq
        · have hends := h.ends i p hlookup
          rw [hprog] at hends
          exact hends r hok
        · exact h.ends j q hq
      · rcases Pool.lookup_insert_cases hq with ⟨-, rfl⟩ | hq
        · rw [hrecords, committedBy_append]
          exact List.append_subset.mpr ⟨List.subset_append_of_subset_left _ (h.durable i p hlookup),
            List.subset_append_right _ _⟩
        · exact List.Subset.trans (h.durable j q hq) hgrown
      · have hmoved : alert ∈ committedRecords w.store.history ∨
            alert ∈ committedBy [⟨o, r⟩] := by
          rw [hrecords] at halert
          exact List.mem_append.mp halert
        -- What the running job committed, before or with this call, is owed by the job itself.
        have hown : ∀ tr, alert ∈ committedBy tr → tr ⊆ p.done ++ [⟨o, r⟩] → ∃ j q,
            (w.procs.insert i ⟨p.input, k r, p.done ++ [⟨o, r⟩]⟩).lookup j = some q ∧
              alert ∈ committedBy q.done := by
          intro tr hmem hsub
          refine ⟨i, _, AList.lookup_insert _, ?_⟩
          obtain ⟨x, hx, hrecord⟩ := List.mem_flatMap.mp hmem
          exact List.mem_flatMap.mpr ⟨x, hsub hx, hrecord⟩
        rcases hmoved with hbefore | hnow
        · rcases h.owed alert hbefore hisAlert with hnotified | ⟨j, q, hq, hmem⟩
          · exact Or.inl (hnotified.mono hgrown)
          · by_cases hj : j = i
            · subst hj
              rw [hlookup] at hq
              obtain rfl := Option.some.inj hq
              exact Or.inr (hown p.done hmem (List.subset_append_left _ _))
            · exact Or.inr ⟨j, q, by rwa [AList.lookup_insert_ne hj], hmem⟩
        · exact Or.inr (hown [⟨o, r⟩] hnow (List.subset_append_right _ _))
  -- A steady job stops when it is done, and then everything it committed has its intents.
  | stop i =>
      refine ⟨fun j q hq => h.ends j q (Pool.lookup_erase_some hq),
        fun j q hq => h.durable j q (Pool.lookup_erase_some hq), fun alert halert hisAlert => ?_⟩
      rcases h.owed alert halert hisAlert with hnotified | ⟨j, q, hq, hmem⟩
      · exact Or.inl hnotified
      · by_cases hj : j = i
        · subst hj
          exact Or.inl (h.settled hq (hsteady q hq) hmem hisAlert)
        · exact Or.inr ⟨j, q, by rwa [AList.lookup_erase_ne hj], hmem⟩
  -- A crash is steady only if every job was done.
  | crash =>
      refine ⟨fun j q hq => by simp at hq, fun j q hq => by simp at hq, ?_⟩
      intro alert halert hisAlert
      rcases h.owed alert halert hisAlert with hnotified | ⟨j, q, hq, hmem⟩
      · exact Or.inl hnotified
      · exact Or.inl (h.settled hq (hsteady j q hq) hmem hisAlert)

/-- **In a steady run every committed alert is notified**, or is of a process that is still at work;
once none is, all are notified. -/
theorem steady_notified {tr : List (Pool.Move PipelineJob AlertChoice)}
    (hrun : Run ((pipelineSystem hooks).guard (Steady hooks channels)) tr w) :
    (∀ alert ∈ committedRecords w.store.history, alert.isAlert →
      NotifiedOf channels (committedRecords w.store.history) alert ∨
        ∃ i p, w.procs.lookup i = some p ∧ p.prog.value? = none ∧ alert ∈ committedBy p.done) ∧
    ((∀ i p, w.procs.lookup i = some p → p.prog.value?.isSome) →
      Notified channels (committedRecords w.store.history)) := by
  have hpool : SteadyPool hooks channels w := by
    refine Run.guarded (S := pipelineSystem hooks) ?_ (fun w m w' h hsteady hstep => ?_) hrun
    · rintro w rfl
      exact ⟨fun i p hp => by simp at hp, fun i p hp => by simp at hp,
        fun alert halert => by simp [AlertStore.empty, committedRecords] at halert⟩
    · exact h.step hsteady hstep
  have hone : ∀ alert ∈ committedRecords w.store.history, alert.isAlert →
      NotifiedOf channels (committedRecords w.store.history) alert ∨
        ∃ i p, w.procs.lookup i = some p ∧ p.prog.value? = none ∧ alert ∈ committedBy p.done := by
    intro alert halert hisAlert
    rcases hpool.owed alert halert hisAlert with hnotified | ⟨i, p, hp, hmem⟩
    · exact Or.inl hnotified
    · cases hvalue : p.prog.value? with
      | none => exact Or.inr ⟨i, p, hp, hvalue, hmem⟩
      | some u =>
          have hsettled : Settled channels p := Or.inl (by rw [hvalue]; rfl)
          exact Or.inl (hpool.settled hp hsettled hmem hisAlert)
  refine ⟨hone, fun hidle alert halert hisAlert => ?_⟩
  rcases hone alert halert hisAlert with hnotified | ⟨i, p, hp, hworking, -⟩
  · exact hnotified
  · have hreturned := hidle i p hp
    rw [hworking] at hreturned
    cases hreturned

end Runs

/-! ## A killed run -/

theorem first_second : 1 < 60 := by decide

theorem second_second : 2 < 60 := by decide

/-- A run fires an alert, advances its row and is killed; the next run of the same pipeline, in which
nothing fails, sees an alert that is firing already. -/
def killedRun : List (Pool.Move PipelineJob AlertChoice) :=
  [.start 0 (sampleJob 1 .failure first_second), .run 0 .ok, .run 0 .ok, .run 0 (.txn .none), .crash,
    .start 1 (sampleJob 2 .failure second_second), .run 1 .ok, .run 1 (.txn .none), .stop 1]

/-- The alert of the killed run is never notified. -/
theorem killedRun_unnotified : ∃ w, Run (pipelineSystem sampleHooks) killedRun w ∧
    w.procs = ∅ ∧ ¬ Notified [sampleChannel] (committedRecords w.store.history) := by
  obtain ⟨w, hrun, hidle, halert⟩ : ∃ w, Run (pipelineSystem sampleHooks) killedRun w ∧
      w.procs.entries = [] ∧ (committedRecords w.store.history).map
        (fun record => (record.isAlert, sampleChannel.admits record,
          record.draft.recordType)) = [(true, true, "alert")] :=
    exists_run_of_exec (by decide +kernel)
  refine ⟨w, hrun, AList.ext hidle, fun hnotified => ?_⟩
  obtain ⟨alert, hrecords, hfields⟩ := List.map_eq_singleton_iff.mp halert
  simp only [Prod.mk.injEq] at hfields
  rw [hrecords] at hnotified
  obtain ⟨intent, hintent, hcites⟩ := hnotified alert (by simp) hfields.1 sampleChannel (by simp)
    hfields.2.1
  rw [List.mem_singleton.mp hintent] at hcites
  have hisAlert := hfields.1
  unfold RecordEnvelope.isAlert at hisAlert
  unfold RecordEnvelope.cites at hcites
  split at hcites
  · cases hcites
  · rename_i hdata
    rw [hdata] at hisAlert
    cases hisAlert

/-- A run that is not disturbed notifies its alert. -/
def quietRun : List (Pool.Move PipelineJob AlertChoice) :=
  [.start 0 (sampleJob 1 .failure first_second), .run 0 .ok, .run 0 .ok, .run 0 (.txn .none),
    .run 0 .ok, .stop 0]

section Decide

variable {hooks : Hooks} {cfg : PipelineConfig} {channels : List NotificationChannel}

instance {records : List RecordEnvelope} : Decidable (Notified channels records) :=
  inferInstanceAs (Decidable (∀ alert ∈ records, alert.isAlert → ∀ channel ∈ channels,
    channel.admits alert → ∃ intent ∈ records, intent.cites alert channel))

instance {p : Proc alertSignature PipelineJob} : Decidable (Settled channels p) :=
  inferInstanceAs (Decidable (_ ∨ _))

instance {now : Instant} {alert : RecordEnvelope} :
    Decidable (Intendable hooks cfg channels now alert) :=
  decidable_of_iff (∀ channel ∈ channels, channel.admits alert →
      (intentSegment hooks cfg alert channel now).toOption.isSome = true) <| by
    refine forall₃_congr fun channel _ _ => ?_
    cases intentSegment hooks cfg alert channel now with
    | error e => simp [Except.toOption]
    | ok segment => simp [Except.toOption]

instance decidableSteadyResponse (o : AlertOp) (r : o.Resp) :
    Decidable (SteadyResponse hooks cfg channels o r) :=
  match o, r with
  | .readState _, _ => inferInstanceAs (Decidable True)
  | .commit _ frames now, .ok () => inferInstanceAs (Decidable (∀ frame ∈ frames,
      frame.record.isAlert → Intendable hooks cfg channels now frame.record))
  | .commit _ frames _, .error _ =>
      inferInstanceAs (Decidable (∀ frame ∈ frames, frame.record.isAlert))
  | .advance _ evaluation, .error _ => inferInstanceAs (Decidable (evaluation.draft = none))
  | .advance .., .ok _ => inferInstanceAs (Decidable True)

/-- What a process would be told if it performed its next operation. -/
def nextResponse (w : Pool alertSignature AlertStore PipelineJob) (i : Nat) (c : AlertChoice) :
    Option (PipelineJob × (o : AlertOp) × o.Resp) :=
  (w.procs.lookup i).bind fun p =>
    match p.prog with
    | .ret _ => none
    | .op o _ => (w.store.perform o c).map fun rs => (p.input, ⟨o, rs.1⟩)

/-- A step is steady unless a commit takes effect and raises. -/
theorem steady_run_iff {w : Pool alertSignature AlertStore PipelineJob} {i : Nat} {c : AlertChoice} :
    Steady hooks channels w (.run i c) ↔ c ≠ .lost ∧ ∀ x ∈ nextResponse w i c,
      SteadyResponse hooks x.1.config channels x.2.1 x.2.2 := by
  refine and_congr_right fun _ => ⟨fun h x hx => ?_, fun h p o k r s' hlookup hprog hperform => ?_⟩
  · obtain ⟨p, hlookup, hx⟩ := Option.bind_eq_some_iff.mp hx
    split at hx
    · cases hx
    · rename_i o k hprog
      obtain ⟨⟨r, s'⟩, hperform, rfl⟩ := Option.map_eq_some_iff.mp hx
      exact h p o k r s' hlookup hprog hperform
  · refine h (p.input, ⟨o, r⟩) (Option.bind_eq_some_iff.mpr ⟨p, hlookup, ?_⟩)
    rw [hprog]
    exact Option.map_eq_some_iff.mpr ⟨(r, s'), hperform, rfl⟩

instance (w : Pool alertSignature AlertStore PipelineJob) (m : Pool.Move PipelineJob AlertChoice) :
    Decidable (Steady hooks channels w m) :=
  match m with
  | .start _ job => inferInstanceAs (Decidable (job.channels = channels))
  | .run i c => decidable_of_iff (c ≠ .lost ∧ ∀ x ∈ nextResponse w i c,
      SteadyResponse hooks x.1.config channels x.2.1 x.2.2) steady_run_iff.symm
  | .stop i => inferInstanceAs (Decidable (∀ p ∈ w.procs.lookup i, Settled channels p))
  | .crash => decidable_of_iff (∀ e ∈ w.procs.entries, Settled channels e.2) <| by
      refine ⟨fun h i p hp => h ⟨i, p⟩ (AList.mem_lookup_iff.mp hp), fun h e he => ?_⟩
      exact h e.1 e.2 (AList.mem_lookup_iff.mpr he)

end Decide

/-- A quiet run: an alert and its intent are committed. -/
theorem quietRun_notified :
    ∃ w, Run ((pipelineSystem sampleHooks).guard (Steady sampleHooks [sampleChannel])) quietRun w ∧
      w.procs = ∅ ∧ (committedRecords w.store.history).map RecordEnvelope.isAlert = [true, false] ∧
      Notified [sampleChannel] (committedRecords w.store.history) := by
  obtain ⟨w, hrun, hidle, hrecords⟩ : ∃ w, Run (.ofFun ⟨.empty, ∅⟩ fun w m =>
      if Steady sampleHooks [sampleChannel] w m then
        Pool.step alertHandler (PipelineJob.prog sampleHooks) w m else none) quietRun w ∧
      w.procs.entries = [] ∧
        (committedRecords w.store.history).map RecordEnvelope.isAlert = [true, false] :=
    exists_run_of_exec (by decide +kernel)
  have hprocs : w.procs = ∅ := AList.ext hidle
  refine ⟨w, hrun.guard_of_exec, hprocs, hrecords, (steady_notified hrun.guard_of_exec).2 ?_⟩
  intro i p hp
  rw [hprocs] at hp
  simp at hp

end Milhouse
