import Milhouse.Alerts.Records

/-!
# Milhouse — the canary alert engine

`evaluateCanaryStateRule` turns one availability sample of one rule into the next state of the rule
and, where the derived state changes, one alert draft. It is pure. What an evaluation gives is said
once, for the modules above:

* **`evaluate_cases`** — the last transition is the one it read, or that of its draft, which goes
  along an edge the record contract allows;
* **`evaluate_revision`** — it expects the revision it read, and asks for the next one.
-/

namespace Milhouse

/-! ## Rules and samples -/

structure AlertRuleSpec where
  ruleId : String
  ruleVersion : Nat
  collector : String
  consecutiveFailures : Nat
  consecutiveSuccesses : Nat
  cooldownSeconds : Nat
  deriving DecidableEq, Repr

inductive AlertOutcome where
  | success
  | failure
  deriving DecidableEq, Repr

/-- One sample for one rule: what the pipeline evaluates in one run. -/
structure AlertSample where
  spec : AlertRuleSpec
  outcome : AlertOutcome
  triggeringRecordId : Option String
  target : TargetDescriptor
  now : Instant

/-- `AlertRuleState`, a row of `_alert_rule_state` with its key. -/
structure AlertRuleState where
  ruleId : String
  ruleVersion : Nat
  consecutiveFailCount : Nat
  consecutiveSuccessCount : Nat
  currentState : AlertState
  cooldownUntil : Option Stamp
  lastSampleAt : Option Stamp
  lastTransitionId : Option String
  revision : Nat
  updatedAt : Stamp
  deriving DecidableEq, Repr

structure AlertStateUpdate where
  consecutiveFailCount : Nat
  consecutiveSuccessCount : Nat
  currentState : AlertState
  cooldownUntil : Option Stamp
  lastSampleAt : Stamp
  lastTransitionId : Option String
  expectedRevision : Nat
  revision : Nat
  deriving DecidableEq, Repr

structure AlertEvaluation where
  update : AlertStateUpdate
  draft : Option AlertDraft
  transition : Option AlertTransition
  deriving DecidableEq, Repr

/-! ## Identities -/

/-- `_contains_unsafe_identifier_characters`; a `Char` is no surrogate. -/
def containsUnsafeIdentifierCharacters (value : String) : Bool :=
  value.toList.any fun c => c.toNat < 0x20 || c.toNat = 0x7F

/-- `_require_bounded_safe_text`. -/
def requireBoundedSafeText (value code subject : String) : Except PipelineError String :=
  if value.isEmpty || containsUnsafeIdentifierCharacters value then
    .error ⟨code, subject ++ " must be safe text"⟩
  else if 256 < value.utf8ByteSize then .error ⟨code, subject ++ " exceeds its byte bound"⟩
  else .ok value

/-- `_require_alert_text`. -/
def requireAlertText (value subject : String) : Except PipelineError String :=
  requireBoundedSafeText value "MH_IDENTITY_ALERT_INPUT" ("an alert " ++ subject)

/-- `_require_alert_version`. -/
def requireAlertVersion (value : Nat) : Except PipelineError Nat :=
  if value < 1 then
    .error ⟨"MH_IDENTITY_ALERT_INPUT", "an alert rule version must be a whole number >= 1"⟩
  else .ok value

section Engine

variable (hooks : Hooks)

def deriveAlertKey (ruleId : String) (ruleVersion : Nat) (collector target : String) :
    Except PipelineError String := do
  let collector ← requireAlertText collector "collector"
  let ruleId ← requireAlertText ruleId "rule id"
  let ruleVersion ← requireAlertVersion ruleVersion
  let target ← requireAlertText target "target"
  pure ("mh_ak1_" ++ hooks.alertKeyDigest collector ruleId ruleVersion target)

def deriveTransitionId (alertKey : String) (previousState state : AlertState)
    (observation : Observation) : Except PipelineError String := do
  let alertKey ← requireAlertText alertKey "alert key"
  pure ("mh_atr1_" ++ hooks.transitionDigest alertKey observation previousState.text state.text)

/-! ## The engine -/

def sourceType : String := "alert.canary_state"
def alertRecordName : String := "alert.canary_state"
def observationKind : String := "alert.canary_state.transition"
def alertNamespace : String := "mh_ns1_a1e77b2c3d404e5f8a0b1c2d3e4f5a6b"

/-- `_NOMINAL_EXPIRY`, in seconds. -/
def nominalExpiry : Nat := 365 * 86400

def severityByState : AlertTransition → String
  | .firing => "error"
  | .resolved => "info"

def summaryByState : AlertTransition → String
  | .firing => "Canary availability rule entered the firing state after reaching the configured " ++
      "consecutive-failure threshold."
  | .resolved => "Canary availability rule returned to the resolved state after reaching the " ++
      "configured consecutive-success threshold."

def sourceGenerationDigest (spec : AlertRuleSpec) : String :=
  hooks.sha256Hex (sourceType ++ "\x00" ++ spec.ruleId ++ "\x00" ++ toString spec.ruleVersion)

def transitionObservation (spec : AlertRuleSpec) (target : TargetDescriptor) (nowStamp : Stamp)
    (state : AlertState) : Observation :=
  .transition observationKind spec.ruleId spec.ruleVersion target.id nowStamp state

/-- The draft `_alert_draft` builds, before the record contract sees it. -/
def alertDraftFields (sample : AlertSample) (observation : Observation)
    (alertKey transitionId : String) (previousState : AlertState) (state : AlertTransition)
    (revision : Nat) (triggeringRecordId : String) (expiry : Instant) : AlertDraft where
  recordType := "alert"
  name := alertRecordName
  occurredAt := formatTimestamp sample.now
  observedAt := formatTimestamp sample.now
  ingestedAt := formatTimestamp sample.now
  expiresAt := formatTimestamp expiry
  operationId := sample.spec.ruleId ++ ":" ++ hooks.stampText (formatTimestamp sample.now)
  scope := .target
  sourceId := sample.spec.ruleId
  sourceType := sourceType
  producer := "system"
  observationNamespaceId := alertNamespace
  sourceGenerationDigest := sourceGenerationDigest hooks sample.spec
  observation := observation
  target := sample.target
  severity := severityByState state
  trustLevel := "system"
  privacyClass := .internal
  redactionVersion := "r1-e1"
  data :=
    { alertKey := alertKey
      ruleId := sample.spec.ruleId
      ruleVersion := sample.spec.ruleVersion
      transitionId := transitionId
      revision := revision
      previousState := previousState
      state := state
      triggeringObservation := observation
      severity := severityByState state
      summary := summaryByState state
      evidenceIds := [triggeringRecordId] }

/-- `_alert_draft`, with the expiry it computes; the record contract may refuse the draft. -/
def alertDraftUntil (expiry : Option Instant) (sample : AlertSample)
    (observation : Observation) (alertKey transitionId : String)
    (previousState : AlertState) (state : AlertTransition) (revision : Nat)
    (triggeringRecordId : String) : Except PipelineError AlertDraft :=
  match expiry with
  | none => .error unexpectedError
  | some expiry =>
      let draft := alertDraftFields hooks sample observation alertKey transitionId previousState
        state revision triggeringRecordId expiry
      if hooks.acceptsDraft (draft.map .alert) then .ok draft else .error unexpectedError

/-- `_alert_draft`; the expiry may overflow. -/
def alertDraft (sample : AlertSample) (observation : Observation)
    (alertKey transitionId : String) (previousState : AlertState) (state : AlertTransition)
    (revision : Nat) (triggeringRecordId : String) : Except PipelineError AlertDraft :=
  alertDraftUntil hooks (sample.now.addSeconds nominalExpiry) sample observation alertKey
    transitionId previousState state revision triggeringRecordId

/-- The edge a sample takes, if any, with the state it leaves and the evidence it cites. -/
def edge (sample : AlertSample) (baseState : AlertState) (fail success : Nat)
    (cooldownUntil : Option Stamp) : Option (AlertTransition × AlertState × String) :=
  match sample.triggeringRecordId with
  | none => none
  | some recordId =>
      if sample.outcome = .failure ∧ sample.spec.consecutiveFailures ≤ fail ∧
          baseState ≠ .firing ∧ cooldownUntil.all (fun until_ => until_ ≤ formatTimestamp sample.now)
      then some (.firing, baseState, recordId)
      else if sample.outcome = .success ∧ sample.spec.consecutiveSuccesses ≤ success ∧
          baseState = .firing then
        some (.resolved, .firing, recordId)
      else none

/-- The cooldown after a transition: only a firing moves the window. -/
def cooldownAfter (sample : AlertSample) (cooldownUntil : Option Stamp) :
    AlertTransition → Except PipelineError (Option Stamp)
  | .resolved => .ok cooldownUntil
  | .firing =>
      match sample.now.addSeconds sample.spec.cooldownSeconds with
      | some limit => .ok (some (formatTimestamp limit))
      | none => .error unexpectedError

/-- The draft of an edge, with the cooldown it sets. -/
def transitionDraft (sample : AlertSample) (cooldownUntil : Option Stamp) (revision : Nat)
    (transition : AlertTransition) (previousState : AlertState) (recordId : String) :
    Except PipelineError (AlertDraft × Option Stamp) := do
  let cooldownUntil ← cooldownAfter sample cooldownUntil transition
  let alertKey ← deriveAlertKey hooks sample.spec.ruleId sample.spec.ruleVersion
    sample.spec.collector sample.target.id
  let observation := transitionObservation sample.spec sample.target (formatTimestamp sample.now)
    transition.state
  let transitionId ← deriveTransitionId hooks alertKey previousState transition.state observation
  let draft ← alertDraft hooks sample observation alertKey transitionId previousState transition
    (revision + 1) recordId
  pure (draft, cooldownUntil)

/-- The revision a caller last observed: 0 before the first sample. -/
def observedRevision (current : Option AlertRuleState) : Nat :=
  (current.map AlertRuleState.revision).getD 0

/-- `evaluate_canary_state_rule`. -/
def evaluateCanaryStateRule (sample : AlertSample) (current : Option AlertRuleState) :
    Except PipelineError AlertEvaluation :=
  let baseState := (current.map AlertRuleState.currentState).getD .inactive
  let cooldownUntil := current.bind AlertRuleState.cooldownUntil
  let lastTransitionId := current.bind AlertRuleState.lastTransitionId
  let revision := observedRevision current
  let fail := match sample.outcome with
    | .failure => (current.map AlertRuleState.consecutiveFailCount).getD 0 + 1
    | .success => 0
  let success := match sample.outcome with
    | .success => (current.map AlertRuleState.consecutiveSuccessCount).getD 0 + 1
    | .failure => 0
  match edge sample baseState fail success cooldownUntil with
  | none =>
      .ok ⟨⟨fail, success, baseState, cooldownUntil, formatTimestamp sample.now, lastTransitionId,
        revision, revision + 1⟩, none, none⟩
  | some (transition, previousState, recordId) => do
      let (draft, cooldown) ←
        transitionDraft hooks sample cooldownUntil revision transition previousState recordId
      pure ⟨⟨fail, success, transition.state, cooldown, formatTimestamp sample.now,
        some draft.data.transitionId, revision, revision + 1⟩, some draft, some transition⟩

end Engine

/-! ## What an evaluation gives -/

/-- `AlertDataV1.validate_transition`. -/
def allowedTransition : AlertState → AlertTransition → Bool
  | .inactive, .firing | .firing, .resolved | .resolved, .firing => true
  | _, _ => false

section Results

variable {hooks : Hooks} {sample : AlertSample} {current : Option AlertRuleState}
  {e : AlertEvaluation} {draft : AlertDraft} {transition : AlertTransition} {previousState : AlertState}
  {baseState : AlertState} {recordId : String}

/-- The edges the engine takes are those the record contract allows. -/
theorem edge_allowed {fail success : Nat} {cooldown : Option Stamp}
    (h : edge sample previousState fail success cooldown = some (transition, baseState, recordId)) :
    baseState = previousState ∧ allowedTransition previousState transition = true := by
  unfold edge at h
  split at h
  · cases h
  · split at h
    · rename_i hfire
      cases h
      refine ⟨rfl, ?_⟩
      cases previousState with
      | inactive => rfl
      | firing => exact absurd rfl hfire.2.2.1
      | resolved => rfl
    · split at h
      · rename_i hresolve
        cases h
        rw [hresolve.2.2]
        exact ⟨rfl, rfl⟩
      · cases h

/-- What a draft says of the edge it was made for. -/
theorem alertDraftUntil_data {expiry : Option Instant} {observation : Observation}
    {alertKey transitionId : String} {revision : Nat}
    (h : alertDraftUntil hooks expiry sample observation alertKey transitionId previousState
      transition revision recordId = .ok draft) :
    draft.data.previousState = previousState ∧ draft.data.state = transition ∧
      draft.data.revision = revision ∧ draft.data.severity = draft.severity := by
  cases expiry with
  | none => cases h
  | some expiry =>
      rw [← (Except.ite_eq_ok_iff.mp h).2]
      exact ⟨rfl, rfl, rfl, rfl⟩

theorem transitionDraft_data {cooldown cooldown' : Option Stamp} {revision : Nat}
    (h : transitionDraft hooks sample cooldown revision transition previousState recordId =
      .ok (draft, cooldown')) :
    draft.data.previousState = previousState ∧ draft.data.state = transition ∧
      draft.data.revision = revision + 1 ∧ draft.data.severity = draft.severity := by
  unfold transitionDraft at h
  obtain ⟨limit, -, h⟩ := Except.bind_eq_ok_iff.mp h
  obtain ⟨alertKey, -, h⟩ := Except.bind_eq_ok_iff.mp h
  obtain ⟨transitionId, -, h⟩ := Except.bind_eq_ok_iff.mp h
  obtain ⟨draft', hdraft, h⟩ := Except.bind_eq_ok_iff.mp h
  cases h
  exact alertDraftUntil_data hdraft

/-- **What an evaluation gives**: either the state stays and the last transition is the one read, or
the draft is of an edge out of the state read, and it is the last transition. -/
theorem evaluate_cases (h : evaluateCanaryStateRule hooks sample current = .ok e) :
    (e.draft = none ∧ e.transition = none ∧
        e.update.lastTransitionId = current.bind AlertRuleState.lastTransitionId) ∨
      ∃ draft transition, e.draft = some draft ∧ e.transition = some transition ∧
        e.update.lastTransitionId = some draft.data.transitionId ∧
        e.update.currentState = transition.state ∧ draft.data.state = transition ∧
        draft.data.previousState = (current.map AlertRuleState.currentState).getD .inactive ∧
        allowedTransition draft.data.previousState draft.data.state = true ∧
        draft.data.revision = e.update.revision ∧ draft.data.severity = draft.severity := by
  simp only [evaluateCanaryStateRule] at h
  split at h
  · obtain rfl := Except.ok.inj h
    exact Or.inl ⟨rfl, rfl, rfl⟩
  · rename_i transition previousState recordId hedge
    right
    obtain ⟨⟨draft, cooldown⟩, hdraft, h⟩ := Except.bind_eq_ok_iff.mp h
    obtain rfl := Except.ok.inj h
    obtain ⟨hbase, hallowed⟩ := edge_allowed hedge
    obtain ⟨hprevious, hstate, hrevision, hseverity⟩ := transitionDraft_data hdraft
    refine ⟨draft, transition, rfl, rfl, rfl, rfl, hstate, hprevious.trans hbase, ?_, hrevision,
      hseverity⟩
    rw [hprevious, hstate, hbase]
    exact hallowed

/-- An evaluation expects the revision it read and asks for the next one. -/
theorem evaluate_revision (h : evaluateCanaryStateRule hooks sample current = .ok e) :
    e.update.expectedRevision = observedRevision current ∧
      e.update.revision = observedRevision current + 1 := by
  simp only [evaluateCanaryStateRule] at h
  split at h
  · obtain rfl := Except.ok.inj h
    exact ⟨rfl, rfl⟩
  · obtain ⟨⟨draft, cooldown⟩, -, h⟩ := Except.bind_eq_ok_iff.mp h
    obtain rfl := Except.ok.inj h
    exact ⟨rfl, rfl⟩

end Results

end Milhouse
