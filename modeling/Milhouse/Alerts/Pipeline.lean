import Milhouse.Alerts.RuleState
import Milhouse.Lib.Pool

/-!
# Milhouse — the alert and intent stages of a pipeline run

`pipelineStages` is what `RuntimePipeline.run` does after its collectors: `driveAlerts` evaluates
every rule, commits the record of a transition and then advances the rule's row; afterwards
`driveNotificationIntents` commits one intent for each alert *this run* committed and each channel
that admits it. Both are programs over `AlertOp`, whose handler is the rule state table and the
committed segments; a commit may fail, or take effect and still raise.

* **`AlertStore.perform_commit`**, **`AlertStore.perform_advance`** — what an operation can do.
-/

namespace Milhouse

open Interaction Interaction.Prog

/-! ## Inputs -/

structure CanaryStateAlertRule where
  id : String
  collector : String
  consecutiveFailures : Nat
  consecutiveSuccesses : Nat
  cooldownSeconds : Nat
  deriving DecidableEq, Repr

/-- A notification channel, as far as the intent stage reads it. -/
structure NotificationChannel where
  id : String
  type : String
  enabled : Bool
  allowedClassifications : List PrivacyClass
  deriving DecidableEq, Repr

/-- `CANARY_STATE_RULE_VERSION`. -/
def canaryStateRuleVersion : Nat := 1

/-- What one run hands to its alert stage: its instant, the configured collectors with the target
each names, the declared targets, and the samples its collectors produced. -/
structure PipelineRun where
  now : Instant
  rules : List CanaryStateAlertRule
  collectors : Table String (Option String)
  targets : Table String TargetDescriptor
  availability : Table String (AlertOutcome × Option String)

/-- `_target_descriptor`. -/
def PipelineRun.targetDescriptor (run : PipelineRun) (targetId : Option String) :
    Except PipelineError (Option TargetDescriptor) :=
  match targetId with
  | none => .ok none
  | some id =>
      match run.targets.lookup id with
      | some target => .ok (some target)
      | none => .error
          ⟨"MH_RUNTIME_PIPELINE_TARGET", "the collector target is not a declared target"⟩

def CanaryStateAlertRule.spec (rule : CanaryStateAlertRule) : AlertRuleSpec where
  ruleId := rule.id
  ruleVersion := canaryStateRuleVersion
  collector := rule.collector
  consecutiveFailures := rule.consecutiveFailures
  consecutiveSuccesses := rule.consecutiveSuccesses
  cooldownSeconds := rule.cooldownSeconds

/-- The sample a rule evaluates in a run; `none` where its collector produced none. -/
def PipelineRun.sampleFor (run : PipelineRun) (rule : CanaryStateAlertRule) :
    Except PipelineError (Option AlertSample) :=
  match run.availability.lookup rule.collector, run.collectors.lookup rule.collector with
  | some (outcome, recordId), some targetId =>
      match run.targetDescriptor targetId with
      | .error e => .error e
      | .ok none => .error
          ⟨"MH_RUNTIME_PIPELINE_ALERT", "a canary alert rule requires a target-scoped collector"⟩
      | .ok (some target) => .ok (some ⟨rule.spec, outcome, recordId, target, run.now⟩)
  | _, _ => .ok none

/-! ## Intents -/

section Intents

variable (hooks : Hooks)

def intentSourceType : String := "alert.notification_intent"
def intentRecordName : String := "alert.notification_intent"
def intentObservationKind : String := "alert.notification_intent"
def intentNamespace : String := "mh_ns1_b2f88c3d4e514a6b9c0d1e2f3a4b5c6d"

def intentSummary : String :=
  "A configured notification channel recorded a durable intent to notify for this alert " ++
    "transition. No message was sent; delivery is out of scope for this record."

/-- `derive_notification_intent_id`. -/
def deriveNotificationIntentId (transitionId channelId : String) : Except PipelineError String := do
  let channelId ← requireBoundedSafeText channelId "MH_IDENTITY_NOTIFICATION_INPUT"
    "a notification intent channel id"
  let transitionId ← requireBoundedSafeText transitionId "MH_IDENTITY_NOTIFICATION_INPUT"
    "a notification intent transition id"
  pure ("mh_nin1_" ++ hooks.intentDigest channelId transitionId)

/-- The draft `_notification_intent_draft` builds, before the record contract sees it. -/
def intentDraftFields (alert : RecordEnvelope) (payload : AlertData) (channel : NotificationChannel)
    (stamp expiry : Stamp) (intentId : String) : IntentDraft where
  recordType := "notification_intent"
  name := intentRecordName
  occurredAt := stamp
  observedAt := stamp
  ingestedAt := stamp
  expiresAt := expiry
  operationId := payload.ruleId ++ ":" ++ channel.id ++ ":" ++ hooks.stampText stamp
  scope := .target
  sourceId := payload.ruleId
  sourceType := intentSourceType
  producer := "system"
  observationNamespaceId := intentNamespace
  sourceGenerationDigest := hooks.sha256Hex (intentSourceType ++ "\x00" ++ payload.ruleId ++ "\x00"
    ++ toString payload.ruleVersion ++ "\x00" ++ channel.id)
  observation := .intent intentObservationKind payload.transitionId channel.id
  target := alert.draft.target
  severity := alert.draft.severity
  trustLevel := "system"
  privacyClass := .internal
  redactionVersion := "r1-e1"
  data :=
    { intentId := intentId
      alertKey := payload.alertKey
      transitionId := payload.transitionId
      channelId := channel.id
      channelType := channel.type
      severity := alert.draft.severity
      summary := intentSummary
      evidenceIds := [alert.recordId.val] }

/-- `_notification_intent_draft` with the expiry it computes; the record contract may refuse. -/
def notificationIntentDraftUntil (expiry : Option Instant) (alert : RecordEnvelope)
    (channel : NotificationChannel) (stamp : Stamp) : Except PipelineError IntentDraft :=
  match alert.draft.data, expiry with
  | .alert payload, some expiry =>
      match deriveNotificationIntentId hooks payload.transitionId channel.id with
      | .error e => .error e
      | .ok intentId =>
          let draft := intentDraftFields hooks alert payload channel stamp
            (formatTimestamp expiry) intentId
          if hooks.acceptsDraft (draft.map .intent) then .ok draft else .error unexpectedError
  | _, _ => .error unexpectedError

def notificationIntentDraft (alert : RecordEnvelope) (channel : NotificationChannel)
    (now : Instant) : Except PipelineError IntentDraft :=
  notificationIntentDraftUntil hooks (now.addSeconds nominalExpiry) alert channel
    (formatTimestamp now)

/-- The source id of an intent segment. -/
def intentSourceId (ruleId channelId : String) : String := ruleId ++ "-" ++ channelId

/-- The segment of the intent for one alert and one channel. -/
def intentSegment (cfg : PipelineConfig) (alert : RecordEnvelope) (channel : NotificationChannel)
    (now : Instant) : Except PipelineError (SegmentHeaderV1 × List SpoolFrame) := do
  let draft ← notificationIntentDraft hooks alert channel now
  let record ← finalize hooks cfg (draft.map .intent)
  buildSegment hooks cfg (intentSourceId alert.draft.sourceId channel.id) record
    (formatTimestamp now)

end Intents

/-- A channel applies to an alert. -/
def NotificationChannel.admits (channel : NotificationChannel) (alert : RecordEnvelope) : Bool :=
  channel.enabled && channel.allowedClassifications.contains alert.draft.privacyClass

/-! ## The store and its operations -/

/-- One call the stages make. -/
inductive AlertOp where
  /-- `read_alert_state`. -/
  | readState (key : AlertKey)
  /-- `spool.commit_segment`. -/
  | commit (header : SegmentHeaderV1) (frames : List SpoolFrame) (committedAt : Instant)
  /-- `advance_alert_state` with the update of an evaluation of `sample`. -/
  | advance (sample : AlertSample) (evaluation : AlertEvaluation)

def AlertOp.Resp : AlertOp → Type
  | .readState _ => Except StateError (Option AlertRuleState)
  | .commit .. => Except PipelineError Unit
  | .advance .. => Except StateError AlertRuleState

def alertSignature : Signature := ⟨AlertOp, AlertOp.Resp⟩

abbrev AlertProg := Prog alertSignature

/-- What is remembered of a run; no program reads it. -/
inductive AlertEvent where
  /-- A segment was durably committed. -/
  | committed (header : SegmentHeaderV1) (frames : List SpoolFrame)
  /-- The row of a rule was advanced, from this evaluation of this sample. -/
  | advanced (sample : AlertSample) (evaluation : AlertEvaluation) (row : AlertRuleState)

structure AlertStore where
  rows : AlertTable
  history : List AlertEvent

def AlertStore.empty : AlertStore := ⟨∅, []⟩

/-- What the environment decides about one call. -/
inductive AlertChoice where
  | ok
  /-- It raises and has no effect. -/
  | fail
  /-- It takes effect and raises. -/
  | lost
  /-- Where the transaction fails, if it does. -/
  | txn (fault : TxnFault)
  deriving DecidableEq, Repr

def segmentNotCommitted : PipelineError :=
  ⟨"MH_SPOOL_COMMIT", "the segment ledger could not be committed"⟩

namespace AlertStore

def remember (s : AlertStore) (e : AlertEvent) : AlertStore :=
  { s with history := s.history ++ [e] }

/-- The store after an advance, which is remembered where it succeeds. -/
def advanced (s : AlertStore) (sample : AlertSample) (evaluation : AlertEvaluation) :
    Except StateError AlertRuleState × AlertTable → AlertStore
  | (.ok row, rows) => { s with rows := rows }.remember (.advanced sample evaluation row)
  | (.error _, rows) => { s with rows := rows }

def perform (s : AlertStore) : (o : AlertOp) → AlertChoice → Option (o.Resp × AlertStore)
  | .readState key, .ok => some (readAlertState false key s.rows, s)
  | .readState key, .fail => some (readAlertState true key s.rows, s)
  | .commit header frames _, .ok => some (.ok (), s.remember (.committed header frames))
  | .commit .., .fail => some (.error segmentNotCommitted, s)
  | .commit header frames _, .lost =>
      some (.error segmentNotCommitted, s.remember (.committed header frames))
  | .advance sample evaluation, .txn fault =>
      let result := advanceAlertState fault sample.spec.key evaluation.update sample.now s.rows
      some (result.1, s.advanced sample evaluation result)
  | _, _ => none

end AlertStore

def alertHandler : Handler alertSignature AlertStore AlertChoice := ⟨AlertStore.perform⟩

/-! ## The stages -/

section Stages

variable (hooks : Hooks) (cfg : PipelineConfig)

/-- What `_evaluate_rule` returns: how many alerts fired and resolved, and the committed record. -/
structure RuleOutcome where
  fired : Nat
  resolved : Nat
  committed : Option RecordEnvelope

/-- The error a state failure is to the pipeline. -/
def StateError.toPipeline (e : StateError) : PipelineError := ⟨e.code, e.message⟩

/-- The commit of a transition's record, where the evaluation has one. -/
def commitTransition (sample : AlertSample) (evaluation : AlertEvaluation) :
    AlertProg (Except PipelineError RuleOutcome) :=
  match evaluation.draft with
  | none => pure (.ok ⟨0, 0, none⟩)
  | some draft =>
      match finalize hooks cfg (draft.map .alert) with
      | .error e => pure (.error e)
      | .ok record =>
          match buildSegment hooks cfg sample.spec.ruleId record (formatTimestamp sample.now) with
          | .error e => pure (.error e)
          | .ok (header, frames) => do
              match ← call (Γ := alertSignature) (.commit header frames sample.now) with
              | .error e => pure (.error e)
              | .ok () =>
                  if evaluation.transition = some .firing then pure (.ok ⟨1, 0, some record⟩)
                  else pure (.ok ⟨0, 1, some record⟩)

/-- The part of `_evaluate_rule` behind its guards: read, evaluate, commit, advance. -/
def evaluateSample (sample : AlertSample) : AlertProg (Except PipelineError RuleOutcome) := do
  match ← call (Γ := alertSignature) (.readState sample.spec.key) with
  | .error e => pure (.error e.toPipeline)
  | .ok current =>
      match evaluateCanaryStateRule hooks sample current with
      | .error e => pure (.error e)
      | .ok evaluation => do
          match ← commitTransition hooks cfg sample evaluation with
          | .error e => pure (.error e)
          | .ok outcome =>
              match ← call (Γ := alertSignature) (.advance sample evaluation) with
              | .error e => pure (.error e.toPipeline)
              | .ok _ => pure (.ok outcome)

/-- `_evaluate_rule`. -/
def evaluateRule (run : PipelineRun) (rule : CanaryStateAlertRule) :
    AlertProg (Except PipelineError RuleOutcome) :=
  match run.sampleFor rule with
  | .error e => pure (.error e)
  | .ok none => pure (.ok ⟨0, 0, none⟩)
  | .ok (some sample) => evaluateSample hooks cfg sample

/-- What `_drive_alerts` returns. -/
structure AlertTotals where
  fired : Nat
  resolved : Nat
  errorCode : Option String
  committed : List RecordEnvelope

/-- One rule's outcome added to the totals; the first error code is kept. -/
def AlertTotals.add (totals : AlertTotals) : Except PipelineError RuleOutcome → AlertTotals
  | .ok outcome =>
      { totals with
        fired := totals.fired + outcome.fired
        resolved := totals.resolved + outcome.resolved
        committed := totals.committed ++ outcome.committed.toList }
  | .error e => { totals with errorCode := totals.errorCode.or (some e.code) }

/-- `_drive_alerts`. -/
def driveAlerts (run : PipelineRun) : AlertProg AlertTotals :=
  foldUntil run.rules ⟨0, 0, none, []⟩ fun totals rule => do
    pure (true, totals.add (← evaluateRule hooks cfg run rule))

/-- What `_drive_notification_intents` returns. -/
structure IntentTotals where
  emitted : Nat
  errorCode : Option String

/-- The commit of one intent. -/
def emitIntent (now : Instant) (alert : RecordEnvelope) (channel : NotificationChannel)
    (totals : IntentTotals) : AlertProg IntentTotals :=
  let failed (e : PipelineError) : IntentTotals :=
    { totals with errorCode := totals.errorCode.or (some e.code) }
  match intentSegment hooks cfg alert channel now with
  | .error e => pure (failed e)
  | .ok (header, frames) => do
      match ← call (Γ := alertSignature) (.commit header frames now) with
      | .error e => pure (failed e)
      | .ok () => pure { totals with emitted := totals.emitted + 1 }

/-- `_drive_notification_intents`. -/
def driveNotificationIntents (channels : List NotificationChannel) (now : Instant)
    (committed : List RecordEnvelope) : AlertProg IntentTotals :=
  foldUntil committed ⟨0, none⟩ fun totals alert => do
    let totals ← foldUntil channels totals fun totals channel => do
      if channel.admits alert then pure (true, ← emitIntent hooks cfg now alert channel totals)
      else pure (true, totals)
    pure (true, totals)

/-- The two stages of a run, one after the other. -/
def pipelineStages (channels : List NotificationChannel) (run : PipelineRun) :
    AlertProg (AlertTotals × IntentTotals) := do
  let alerts ← driveAlerts hooks cfg run
  let intents ← driveNotificationIntents hooks cfg channels run.now alerts.committed
  pure (alerts, intents)

end Stages

/-! ## What an operation can do -/

namespace AlertStore

variable {s s' : AlertStore} {c : AlertChoice}

theorem perform_readState {key : AlertKey} {r : Except StateError (Option AlertRuleState)}
    (h : s.perform (.readState key) c = some (r, s')) :
    s' = s ∧ ∀ current, r = .ok current → current = s.rows.lookup key := by
  cases c with
  | ok =>
      obtain ⟨rfl, rfl⟩ := Prod.mk.inj (Option.some.inj h)
      exact ⟨rfl, fun current hr => readAlertState_ok hr⟩
  | fail =>
      obtain ⟨rfl, rfl⟩ := Prod.mk.inj (Option.some.inj h)
      exact ⟨rfl, fun current hr => readAlertState_ok hr⟩
  | lost => cases h
  | txn fault => cases h

/-- **A commit that returns is remembered, and one that raises changes nothing or took effect.** -/
theorem perform_commit {header : SegmentHeaderV1} {frames : List SpoolFrame} {now : Instant}
    {r : Except PipelineError Unit} (h : s.perform (.commit header frames now) c = some (r, s')) :
    s' = s.remember (.committed header frames) ∨ (s' = s ∧ ∃ e, r = .error e) := by
  cases c with
  | ok => exact Or.inl (Prod.mk.inj (Option.some.inj h)).2.symm
  | fail =>
      obtain ⟨rfl, rfl⟩ := Prod.mk.inj (Option.some.inj h)
      exact Or.inr ⟨rfl, _, rfl⟩
  | lost => exact Or.inl (Prod.mk.inj (Option.some.inj h)).2.symm
  | txn fault => cases h

/-- **An advance** wins over the revision it expected, and is remembered, or changes nothing. -/
theorem perform_advance {sample : AlertSample} {evaluation : AlertEvaluation}
    {r : Except StateError AlertRuleState}
    (h : s.perform (.advance sample evaluation) c = some (r, s')) :
    (s' = s ∧ ∃ e, r = .error e) ∨
      (observedRevision (s.rows.lookup sample.spec.key) = evaluation.update.expectedRevision ∧
        ∃ row, r = .ok row ∧
          row = evaluation.update.row sample.spec.key (evaluation.update.expectedRevision + 1)
            sample.now ∧
          s' = ⟨s.rows.insert sample.spec.key row,
            s.history ++ [.advanced sample evaluation row]⟩) := by
  cases c with
  | txn fault =>
      obtain ⟨rfl, rfl⟩ := Prod.mk.inj (Option.some.inj h)
      rcases hresult : advanceAlertState fault sample.spec.key evaluation.update sample.now s.rows
        with ⟨_ | row, rows⟩
      · have hrows : rows = s.rows := advanceAlertState_error hresult
        exact Or.inl ⟨by rw [advanced, hrows], _, rfl⟩
      · obtain ⟨hrevision, hrow, rfl⟩ := advanceAlertState_ok hresult
        exact Or.inr ⟨hrevision, row, rfl, hrow, rfl⟩
  | ok => cases h
  | fail => cases h
  | lost => cases h

end AlertStore

/-! ## A pipeline of one rule

One collector, one rule that fires and resolves on the first sample, one channel. Concrete runs use
it. -/

def sampleRecordId : RecordId :=
  ⟨"mh_aaaaaaaaaaaaaaaaaaaaaaaaaaaaaaaaaaaaaaaaaaaaaaaaaaaa", by decide +kernel⟩

/-- Digests that tell the transitions and the stamps of short runs apart. -/
def sampleHooks : Hooks where
  stampText stamp := toString stamp
  alertKeyDigest _ ruleId _ _ := ruleId
  transitionDigest _ observation _ state :=
    match observation with
    | .transition _ _ _ _ stamp _ => state ++ toString stamp
    | .intent .. => state
  intentDigest channel transition := channel ++ transition
  sha256Hex _ := zeroDigest
  acceptsDraft _ := true
  identify _ := some (sampleRecordId, "d", "h")
  frameLine _ := some [0]
  contentSha256 _ := zeroDigest

def samplePipeline : PipelineConfig where
  configGeneration := zeroDigest
  alertsDays := 1
  requiredExporters := []
  redact text := some text
  redactionVersion := "r1-e1"

def sampleRule : CanaryStateAlertRule := ⟨"r", "c", 1, 1, 0⟩

def sampleChannel : NotificationChannel := ⟨"n", "telegram", true, [.internal]⟩

/-- A run at the given second whose collector saw `outcome`. -/
def samplePipelineRun (second : Nat) (outcome : AlertOutcome) (h : second < 60) : PipelineRun where
  now := ⟨second * 1000000, by unfold datetimeLimit; omega⟩
  rules := [sampleRule]
  collectors := AList.singleton "c" (some "t")
  targets := AList.singleton "t" ⟨"t", "T", "service", "prod"⟩
  availability := AList.singleton "c" (outcome, some "e")

end Milhouse
