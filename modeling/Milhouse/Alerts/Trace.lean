import Milhouse.Alerts.Pipeline

/-!
# Milhouse — the trace specification of the alert engine

`evaluateTrace` feeds the samples of one rule to the engine one by one, each with the state the one
before it left. `Meets` says of one sample, from the samples and evaluations before it alone, what
its evaluation is to be: nothing in it mentions the stored counters or the stored cooldown.

* `Tracked` — what the stored state says of the history, the invariant of a trace;
* **`evaluate_tracked`** — one sample meets the specification and keeps the invariant;
* **`evaluateTrace_meets`** — so does every sample of every trace;
* **`alertDraftFields_valid`** — the drafts of the engine meet the record contract.
-/

namespace Milhouse

/-! ## Traces -/

/-- One sample of a trace. -/
structure TracePoint where
  outcome : AlertOutcome
  evidence : Option RecordId
  now : Instant

/-- The sample as the engine takes it. -/
def TracePoint.sample (point : TracePoint) (rule : AlertRuleSpec) (target : TargetDescriptor) :
    AlertSample :=
  ⟨rule, point.outcome, point.evidence.map Subtype.val, target, point.now⟩

/-- The samples so far, each with its evaluation. -/
abbrev AlertHistory := List (TracePoint × AlertEvaluation)

section Trace

variable (hooks : Hooks) (rule : AlertRuleSpec) (target : TargetDescriptor)

/-- Evaluate the samples in order, feeding each update back as the next current state. -/
def evaluateTrace (current : Option AlertRuleState) :
    List TracePoint → Except PipelineError (List AlertEvaluation)
  | [] => .ok []
  | point :: rest => do
      let evaluation ← evaluateCanaryStateRule hooks (point.sample rule target) current
      let evaluations ← evaluateTrace
        (some (evaluation.update.row rule.key evaluation.update.revision point.now)) rest
      pure (evaluation :: evaluations)

/-- The alert key of the rule at the target. -/
def ruleAlertKey : String :=
  "mh_ak1_" ++ hooks.alertKeyDigest rule.collector rule.ruleId rule.ruleVersion target.id

/-- The transition id of an edge at an instant. -/
def ruleTransitionId (point : TracePoint) (previousState : AlertState) (state : AlertTransition) :
    String :=
  "mh_atr1_" ++ hooks.transitionDigest (ruleAlertKey hooks rule target)
    (transitionObservation rule target (formatTimestamp point.now) state.state)
    previousState.text state.state.text

/-- A rule and a target the configuration lets through: their identities are safe text, and the
record contract accepts the drafts of the rule's transitions. It is asked only of the drafts that the
engine makes: at instants of whole milliseconds (the contract refuses any other timestamp), with the
expiry that `_alert_draft` computes, along the transitions and revisions that it reaches. -/
structure Admitted : Prop where
  ruleId : requireAlertText rule.ruleId "rule id" = .ok rule.ruleId
  ruleVersion : 1 ≤ rule.ruleVersion
  collector : requireAlertText rule.collector "collector" = .ok rule.collector
  targetId : requireAlertText target.id "target" = .ok target.id
  alertKey : requireAlertText (ruleAlertKey hooks rule target) "alert key" =
    .ok (ruleAlertKey hooks rule target)
  draft : ∀ (point : TracePoint) (previousState : AlertState) (state : AlertTransition)
    (revision : Nat) (evidence : RecordId) (expiry : Instant),
    allowedTransition previousState state = true → 1 ≤ revision → revision ≤ maxCanonicalInt →
    point.now.micros % 1000 = 0 → point.now.addSeconds nominalExpiry = some expiry →
    hooks.acceptsDraft ((alertDraftFields hooks (point.sample rule target)
      (transitionObservation rule target (formatTimestamp point.now) state.state)
      (ruleAlertKey hooks rule target) (ruleTransitionId hooks rule target point previousState state)
      previousState state revision evidence expiry).map .alert) = true

end Trace

/-- An instant that leaves room for the cooldown and the expiry before the end of time. -/
def FarFromEnd (rule : AlertRuleSpec) (now : Instant) : Prop :=
  now.micros + rule.cooldownSeconds * 1000000 < datetimeLimit ∧
    now.micros + nominalExpiry * 1000000 < datetimeLimit

instance (rule : AlertRuleSpec) (now : Instant) : Decidable (FarFromEnd rule now) :=
  inferInstanceAs (Decidable (_ ∧ _))

/-! ## The specification -/

/-- The length of the run of an outcome that ends a list of samples. -/
def trailing (outcome : AlertOutcome) (points : List TracePoint) : Nat :=
  (points.reverse.takeWhile fun point => point.outcome = outcome).length

namespace AlertHistory

def points (history : AlertHistory) : List TracePoint := history.map Prod.fst

/-- The transitions emitted. -/
def transitions (history : AlertHistory) : List AlertTransition :=
  history.filterMap fun entry => entry.2.transition

/-- The state after the last transition. -/
def state (history : AlertHistory) : AlertState :=
  (history.transitions.getLast?.map AlertTransition.state).getD .inactive

/-- The instant of the last firing. -/
def lastFiring (history : AlertHistory) : Option Instant :=
  (history.filter fun entry => entry.2.transition = some .firing).getLast?.map fun entry =>
    entry.1.now

/-- The revision the last evaluation stored. -/
def revision (history : AlertHistory) : Nat :=
  (history.getLast?.map fun entry => entry.2.update.revision).getD 0

end AlertHistory

/-- A sample after which the rule is to fire. -/
def Fires (rule : AlertRuleSpec) (history : AlertHistory) (point : TracePoint) : Prop :=
  point.outcome = .failure ∧ point.evidence.isSome ∧ history.state ≠ .firing ∧
    rule.consecutiveFailures ≤ trailing .failure (history.points ++ [point]) ∧
    ∀ last, history.lastFiring = some last →
      last.micros + rule.cooldownSeconds * 1000000 ≤ point.now.micros

/-- A sample after which the rule is to resolve. -/
def Resolves (rule : AlertRuleSpec) (history : AlertHistory) (point : TracePoint) : Prop :=
  point.outcome = .success ∧ point.evidence.isSome ∧ history.state = .firing ∧
    rule.consecutiveSuccesses ≤ trailing .success (history.points ++ [point])

/-- What the evaluation of a sample is to be after a history. -/
structure Meets (rule : AlertRuleSpec) (history : AlertHistory) (point : TracePoint)
    (evaluation : AlertEvaluation) : Prop where
  fails : evaluation.update.consecutiveFailCount = trailing .failure (history.points ++ [point])
  successes :
    evaluation.update.consecutiveSuccessCount = trailing .success (history.points ++ [point])
  one_zero : evaluation.update.consecutiveFailCount = 0 ∨
    evaluation.update.consecutiveSuccessCount = 0
  firing : evaluation.transition = some .firing ↔ Fires rule history point
  resolved : evaluation.transition = some .resolved ↔ Resolves rule history point
  drafted : evaluation.draft.map (fun draft => draft.data.state) = evaluation.transition
  draft : ∀ draft, evaluation.draft = some draft →
    draft.data.previousState = history.state ∧ draft.data.revision = history.revision + 1
  state : evaluation.update.currentState =
    (AlertHistory.state (history ++ [(point, evaluation)]))

/-- The transition that may come next in a state. -/
def nextTransition : AlertState → AlertTransition
  | .firing => .resolved
  | .inactive | .resolved => .firing

/-- The transitions alternate, starting with the given one. -/
def Alternates : AlertTransition → List AlertTransition → Prop
  | _, [] => True
  | expected, transition :: rest =>
      transition = expected ∧ Alternates (nextTransition transition.state) rest

section Lemmas

variable {rule : AlertRuleSpec} {history : AlertHistory} {point : TracePoint}
  {evaluation : AlertEvaluation}

theorem trailing_concat (outcome : AlertOutcome) (points : List TracePoint) (point : TracePoint) :
    trailing outcome (points ++ [point]) =
      if point.outcome = outcome then trailing outcome points + 1 else 0 := by
  unfold trailing
  rw [List.reverse_concat]
  by_cases h : point.outcome = outcome
  · rw [if_pos h, List.takeWhile_cons_of_pos (by simpa using h), List.length_cons]
  · rw [if_neg h, List.takeWhile_cons_of_neg (by simpa using h), List.length_nil]

theorem points_concat :
    AlertHistory.points (history ++ [(point, evaluation)]) = history.points ++ [point] := by
  unfold AlertHistory.points
  rw [List.map_append]
  rfl

/-- What a sample leaves of the derived state. -/
theorem state_concat : AlertHistory.state (history ++ [(point, evaluation)]) =
    (evaluation.transition.map AlertTransition.state).getD history.state := by
  unfold AlertHistory.state AlertHistory.transitions
  rw [List.filterMap_append]
  cases h : evaluation.transition with
  | none => simp [h]
  | some transition => simp [h]

theorem lastFiring_concat : AlertHistory.lastFiring (history ++ [(point, evaluation)]) =
    if evaluation.transition = some .firing then some point.now else history.lastFiring := by
  unfold AlertHistory.lastFiring
  rw [List.filter_append]
  by_cases h : evaluation.transition = some .firing
  · rw [if_pos h, List.filter_cons_of_pos (by simpa using h)]
    simp
  · rw [if_neg h, List.filter_cons_of_neg (by simpa using h)]
    simp

theorem revision_concat :
    AlertHistory.revision (history ++ [(point, evaluation)]) = evaluation.update.revision := by
  unfold AlertHistory.revision
  rw [List.getLast?_concat]
  rfl

end Lemmas

/-! ## The invariant -/

/-- The deadline of a rule that fired at an instant. -/
def deadline (rule : AlertRuleSpec) (fired : Instant) : Stamp :=
  ((fired.micros + rule.cooldownSeconds * 1000000 : Nat) / 1000 : Nat)

/-- The deadline that the history asks for. -/
def cooldownOf (rule : AlertRuleSpec) (history : AlertHistory) : Option Stamp :=
  history.lastFiring.map (deadline rule)

/-- What the stored state says of the history. -/
structure Tracked (rule : AlertRuleSpec) (history : AlertHistory)
    (current : Option AlertRuleState) : Prop where
  fails : (current.map AlertRuleState.consecutiveFailCount).getD 0 =
    trailing .failure history.points
  successes : (current.map AlertRuleState.consecutiveSuccessCount).getD 0 =
    trailing .success history.points
  state : (current.map AlertRuleState.currentState).getD .inactive = history.state
  cooldown : current.bind AlertRuleState.cooldownUntil = cooldownOf rule history
  precise : ∀ last, history.lastFiring = some last → last.micros % 1000 = 0
  revision : observedRevision current = history.revision
  counted : history.revision = history.length

theorem tracked_nil {rule : AlertRuleSpec} : Tracked rule [] none :=
  ⟨rfl, rfl, rfl, rfl, nofun, rfl, rfl⟩

section Step

variable {hooks : Hooks} {rule : AlertRuleSpec} {target : TargetDescriptor}
  {history : AlertHistory} {point : TracePoint} {current : Option AlertRuleState}

/-- The stored deadline is compared as the cooldown is meant. -/
theorem cooldown_passed (hms : point.now.micros % 1000 = 0)
    (hprecise : ∀ last, history.lastFiring = some last → last.micros % 1000 = 0) :
    ((cooldownOf rule history).all fun limit => limit ≤ formatTimestamp point.now) = true ↔
      ∀ last, history.lastFiring = some last →
        last.micros + rule.cooldownSeconds * 1000000 ≤ point.now.micros := by
  unfold cooldownOf formatTimestamp
  cases hlast : history.lastFiring with
  | none => simp
  | some last =>
      have hwhole := hprecise last hlast
      rw [Option.map_some, Option.all_some, decide_eq_true_iff]
      constructor
      · intro hle last' hlast'
        have hle : (last.micros + rule.cooldownSeconds * 1000000) / 1000 ≤
          point.now.micros / 1000 := hle
        cases hlast'
        omega
      · intro hle
        have hle := hle last rfl
        show (last.micros + rule.cooldownSeconds * 1000000) / 1000 ≤ point.now.micros / 1000
        omega

/-- The edge the engine takes is the one the specification asks for. -/
theorem edge_spec (hms : point.now.micros % 1000 = 0)
    (hprecise : ∀ last, history.lastFiring = some last → last.micros % 1000 = 0) :
    (edge (point.sample rule target) history.state
        (trailing .failure (history.points ++ [point]))
        (trailing .success (history.points ++ [point])) (cooldownOf rule history) = none ∧
      ¬ Fires rule history point ∧ ¬ Resolves rule history point) ∨
    ∃ transition evidence, edge (point.sample rule target) history.state
        (trailing .failure (history.points ++ [point]))
        (trailing .success (history.points ++ [point])) (cooldownOf rule history) =
          some (transition, history.state, Subtype.val (p := fun t => matchesRecordId t = true)
            evidence) ∧
      transition = nextTransition history.state ∧
      (transition = .firing ↔ Fires rule history point) ∧
      (transition = .resolved ↔ Resolves rule history point) := by
  unfold edge
  cases hevidence : point.evidence with
  | none =>
      have hsample : (point.sample rule target).triggeringRecordId = none := by
        unfold TracePoint.sample
        rw [hevidence]
        rfl
      rw [hsample]
      -- Without evidence the code takes no edge, and neither definition admits one.
      refine Or.inl ⟨rfl, fun h => ?_, fun h => ?_⟩
      · have := h.2.1
        rw [hevidence] at this
        cases this
      · have := h.2.1
        rw [hevidence] at this
        cases this
  | some evidence =>
      have hsample : (point.sample rule target).triggeringRecordId = some evidence.val := by
        unfold TracePoint.sample
        rw [hevidence]
        rfl
      rw [hsample]
      -- Beside the evidence the two sides differ only in the cooldown, which the code compares as
      -- texts.
      have hfires : Fires rule history point ↔ (point.outcome = .failure ∧
          rule.consecutiveFailures ≤ trailing .failure (history.points ++ [point]) ∧
          history.state ≠ .firing ∧
          ((cooldownOf rule history).all fun limit => limit ≤ formatTimestamp point.now) =
            true) := by
        unfold Fires
        rw [cooldown_passed hms hprecise, hevidence]
        constructor
        · rintro ⟨ho, -, hs, hf, hc⟩
          exact ⟨ho, hf, hs, hc⟩
        · rintro ⟨ho, hf, hs, hc⟩
          exact ⟨ho, rfl, hs, hf, hc⟩
      have hresolves : Resolves rule history point ↔ (point.outcome = .success ∧
          rule.consecutiveSuccesses ≤ trailing .success (history.points ++ [point]) ∧
          history.state = .firing) := by
        unfold Resolves
        rw [hevidence]
        constructor
        · rintro ⟨ho, -, hs, hf⟩
          exact ⟨ho, hf, hs⟩
        · rintro ⟨ho, hf, hs⟩
          exact ⟨ho, rfl, hs, hf⟩
      by_cases hf : Fires rule history point
      · right
        -- Only a firing rule resolves and only one that is not firing fires.
        have hnot : ¬ Resolves rule history point := fun h => hf.2.2.1 h.2.2.1
        refine ⟨.firing, evidence, ?_, ?_, ⟨fun _ => hf, fun _ => rfl⟩,
          ⟨nofun, fun h => absurd h hnot⟩⟩
        · exact if_pos (hfires.mp hf)
        · cases hstate : history.state with
          | inactive | resolved => rfl
          | firing => exact absurd hstate hf.2.2.1
      · have hno := fun h => hf (hfires.mpr h)
        by_cases hr : Resolves rule history point
        · right
          refine ⟨.resolved, evidence, ?_, ?_, ⟨nofun, fun h => absurd h hf⟩,
            ⟨fun _ => hr, fun _ => rfl⟩⟩
          · rw [hr.2.2.1]
            exact (if_neg (hr.2.2.1 ▸ hno)).trans (if_pos (hr.2.2.1 ▸ hresolves.mp hr))
          · rw [hr.2.2.1]
            rfl
        · exact Or.inl ⟨(if_neg hno).trans (if_neg fun h => hr (hresolves.mpr h)), hf, hr⟩

/-- The deadline a transition leaves: a firing sets it. -/
def deadlineAfter (rule : AlertRuleSpec) (point : TracePoint) (cooldown : Option Stamp) :
    AlertTransition → Option Stamp
  | .firing => some (deadline rule point.now)
  | .resolved => cooldown

/-- The definition of `cooldownAfter`, whose unfolding at a transition would compute the instant. -/
theorem cooldownAfter_eq (sample : AlertSample) (cooldown : Option Stamp)
    (transition : AlertTransition) :
    cooldownAfter sample cooldown transition =
      match transition with
      | .resolved => .ok cooldown
      | .firing =>
          match sample.now.addSeconds sample.spec.cooldownSeconds with
          | some limit => .ok (some (formatTimestamp limit))
          | none => .error unexpectedError := rfl

theorem cooldownAfter_far (transition : AlertTransition) (cooldown : Option Stamp)
    (hfar : FarFromEnd rule point.now) :
    cooldownAfter (point.sample rule target) cooldown transition =
      .ok (deadlineAfter rule point cooldown transition) := by
  cases transition with
  | resolved => rfl
  | firing =>
      have hadd : (point.sample rule target).now.addSeconds
          (point.sample rule target).spec.cooldownSeconds = some ⟨_, hfar.1⟩ :=
        Instant.addSeconds_eq hfar.1
      rw [cooldownAfter_eq, hadd]
      rfl

theorem deriveAlertKey_admitted (hadmitted : Admitted hooks rule target) :
    deriveAlertKey hooks rule.ruleId rule.ruleVersion rule.collector target.id =
      .ok (ruleAlertKey hooks rule target) := by
  have hversion : requireAlertVersion rule.ruleVersion = .ok rule.ruleVersion :=
    if_neg (Nat.not_lt_of_le hadmitted.ruleVersion)
  unfold deriveAlertKey
  rw [hadmitted.collector, hadmitted.ruleId, hversion, hadmitted.targetId]
  rfl

theorem deriveTransitionId_admitted (hadmitted : Admitted hooks rule target)
    (previousState : AlertState) (transition : AlertTransition) :
    deriveTransitionId hooks (ruleAlertKey hooks rule target) previousState transition.state
        (transitionObservation rule target (formatTimestamp point.now) transition.state) =
      .ok (ruleTransitionId hooks rule target point previousState transition) := by
  unfold deriveTransitionId
  rw [hadmitted.alertKey]
  rfl

theorem alertDraft_admitted {previousState : AlertState} {transition : AlertTransition}
    {evidence : RecordId} {revision : Nat} (hadmitted : Admitted hooks rule target)
    (hallowed : allowedTransition previousState transition = true)
    (hrevision : revision + 1 ≤ maxCanonicalInt) (hms : point.now.micros % 1000 = 0)
    (hfar : FarFromEnd rule point.now) :
    ∃ draft, alertDraft hooks (point.sample rule target)
      (transitionObservation rule target (formatTimestamp point.now) transition.state)
      (ruleAlertKey hooks rule target)
      (ruleTransitionId hooks rule target point previousState transition) previousState transition
      (revision + 1) evidence.val = .ok draft := by
  obtain ⟨expiry, hadd, -⟩ := Instant.exists_addSeconds (by decide) hfar.2
  have haccepts := hadmitted.draft point previousState transition (revision + 1) evidence expiry
    hallowed (Nat.le_add_left 1 revision) hrevision hms hadd
  have hnow : (point.sample rule target).now = point.now := rfl
  unfold alertDraft
  rw [hnow, hadd]
  exact ⟨_, if_pos haccepts⟩

/-- An edge that is taken has its draft. -/
theorem transitionDraft_admitted {previousState : AlertState} {transition : AlertTransition}
    {evidence : RecordId} {revision : Nat} (cooldown : Option Stamp)
    (hadmitted : Admitted hooks rule target)
    (hallowed : allowedTransition previousState transition = true)
    (hrevision : revision + 1 ≤ maxCanonicalInt) (hms : point.now.micros % 1000 = 0)
    (hfar : FarFromEnd rule point.now) :
    ∃ draft, transitionDraft hooks (point.sample rule target) cooldown revision transition
        previousState evidence.val =
      .ok (draft, deadlineAfter rule point cooldown transition) := by
  obtain ⟨draft, hdraft⟩ := @alertDraft_admitted hooks rule target point previousState transition
    evidence revision hadmitted hallowed hrevision hms hfar
  refine ⟨draft, ?_⟩
  unfold transitionDraft
  exact Except.bind_eq_ok_iff.mpr ⟨_, cooldownAfter_far transition cooldown hfar,
    Except.bind_eq_ok_iff.mpr ⟨_, deriveAlertKey_admitted hadmitted,
    Except.bind_eq_ok_iff.mpr ⟨_, deriveTransitionId_admitted hadmitted previousState transition,
    Except.bind_eq_ok_iff.mpr ⟨_, hdraft, rfl⟩⟩⟩⟩

/-- The failures counted after a sample. -/
def countedFails (outcome : AlertOutcome) (current : Option AlertRuleState) : Nat :=
  match outcome with
  | .failure => (current.map AlertRuleState.consecutiveFailCount).getD 0 + 1
  | .success => 0

/-- The successes counted after a sample. -/
def countedSuccesses (outcome : AlertOutcome) (current : Option AlertRuleState) : Nat :=
  match outcome with
  | .success => (current.map AlertRuleState.consecutiveSuccessCount).getD 0 + 1
  | .failure => 0

/-- The state read, `inactive` before the first sample. -/
def stateRead (current : Option AlertRuleState) : AlertState :=
  (current.map AlertRuleState.currentState).getD .inactive

/-- The counters the engine computes are the runs that end the samples. -/
theorem counted_tracked (h : Tracked rule history current) :
    countedFails point.outcome current = trailing .failure (history.points ++ [point]) ∧
      countedSuccesses point.outcome current = trailing .success (history.points ++ [point]) := by
  unfold countedFails countedSuccesses
  rw [trailing_concat, trailing_concat, h.fails, h.successes]
  cases point.outcome with
  | success => exact ⟨rfl, rfl⟩
  | failure => exact ⟨rfl, rfl⟩

/-- Without an edge only the counters move. -/
theorem evaluate_still {sample : AlertSample}
    (h : edge sample (stateRead current) (countedFails sample.outcome current)
      (countedSuccesses sample.outcome current) (current.bind AlertRuleState.cooldownUntil) = none) :
    evaluateCanaryStateRule hooks sample current =
      .ok ⟨⟨countedFails sample.outcome current, countedSuccesses sample.outcome current,
        stateRead current, current.bind AlertRuleState.cooldownUntil, formatTimestamp sample.now,
        current.bind AlertRuleState.lastTransitionId, observedRevision current,
        observedRevision current + 1⟩, none, none⟩ := by
  unfold evaluateCanaryStateRule
  dsimp only
  split
  · rfl
  · rename_i hedge
    cases h.symm.trans hedge

/-- With an edge the state moves along it, and its draft is emitted. -/
theorem evaluate_moves {sample : AlertSample} {transition : AlertTransition}
    {previousState : AlertState} {recordId : String} {draft : AlertDraft} {cooldown : Option Stamp}
    (h : edge sample (stateRead current) (countedFails sample.outcome current)
      (countedSuccesses sample.outcome current) (current.bind AlertRuleState.cooldownUntil) =
        some (transition, previousState, recordId))
    (hdraft : transitionDraft hooks sample (current.bind AlertRuleState.cooldownUntil)
      (observedRevision current) transition previousState recordId = .ok (draft, cooldown)) :
    evaluateCanaryStateRule hooks sample current =
      .ok ⟨⟨countedFails sample.outcome current, countedSuccesses sample.outcome current,
        transition.state, cooldown, formatTimestamp sample.now, some draft.data.transitionId,
        observedRevision current, observedRevision current + 1⟩, some draft, some transition⟩ := by
  unfold evaluateCanaryStateRule
  dsimp only
  split
  · rename_i hedge
    cases h.symm.trans hedge
  · rename_i hedge
    cases h.symm.trans hedge
    exact Except.bind_eq_ok_iff.mpr ⟨_, hdraft, rfl⟩

/-- What an evaluation stores, in terms of the history and of its transition. -/
structure Stores (rule : AlertRuleSpec) (history : AlertHistory) (point : TracePoint)
    (evaluation : AlertEvaluation) : Prop where
  fails : evaluation.update.consecutiveFailCount = trailing .failure (history.points ++ [point])
  successes :
    evaluation.update.consecutiveSuccessCount = trailing .success (history.points ++ [point])
  state : evaluation.update.currentState =
    (evaluation.transition.map AlertTransition.state).getD history.state
  cooldown : evaluation.update.cooldownUntil = (evaluation.transition.map
    (deadlineAfter rule point (cooldownOf rule history))).getD (cooldownOf rule history)
  revision : evaluation.update.revision = history.revision + 1

/-- What the next state says of the history with the sample. -/
theorem Tracked.next {evaluation : AlertEvaluation} (h : Tracked rule history current)
    (hms : point.now.micros % 1000 = 0) (hstores : Stores rule history point evaluation) :
    Tracked rule (history ++ [(point, evaluation)])
      (some (evaluation.update.row rule.key evaluation.update.revision point.now)) := by
  refine ⟨?_, ?_, ?_, ?_, ?_, ?_, ?_⟩
  · rw [points_concat]
    exact hstores.fails
  · rw [points_concat]
    exact hstores.successes
  · rw [state_concat]
    exact hstores.state
  · unfold cooldownOf
    rw [lastFiring_concat]
    refine Eq.trans hstores.cooldown ?_
    cases evaluation.transition with
    | none => rfl
    | some transition =>
        cases transition with
        | firing => rfl
        | resolved => rfl
  · intro last hlast
    rw [lastFiring_concat] at hlast
    split at hlast
    · cases hlast
      exact hms
    · exact h.precise last hlast
  · rw [revision_concat]
    rfl
  · rw [revision_concat, hstores.revision, h.counted, List.length_append]
    rfl

/-- The engine takes the edge that is asked for, or stores what stays. -/
theorem evaluate_stores (hadmitted : Admitted hooks rule target)
    (h : Tracked rule history current) (hms : point.now.micros % 1000 = 0)
    (hfar : FarFromEnd rule point.now) (hcount : history.length < maxCanonicalInt) :
    ∃ evaluation, evaluateCanaryStateRule hooks (point.sample rule target) current =
        .ok evaluation ∧
      Stores rule history point evaluation ∧
      ((evaluation.transition = none ∧ evaluation.draft = none ∧ ¬ Fires rule history point ∧
          ¬ Resolves rule history point) ∨
        ∃ draft, evaluation.transition = some (nextTransition history.state) ∧
          evaluation.draft = some draft ∧
          (nextTransition history.state = .firing ↔ Fires rule history point) ∧
          (nextTransition history.state = .resolved ↔ Resolves rule history point) ∧
          draft.data.state = nextTransition history.state ∧
          draft.data.previousState = history.state ∧
          draft.data.revision = history.revision + 1) := by
  obtain ⟨hfails, hsuccesses⟩ := @counted_tracked rule history point current h
  have hread : stateRead current = history.state := h.state
  have hrevision := congrArg (· + 1) h.revision
  -- What the evaluator computes from its row is what the history says, so the edge is that of the
  -- history.
  rcases @edge_spec rule target history point hms h.precise with
    ⟨hedge, hnotFires, hnotResolves⟩ | ⟨transition, evidence, hedge, hnext, hfires, hresolves⟩
  · rw [← hfails, ← hsuccesses, ← hread, ← h.cooldown] at hedge
    exact ⟨_, evaluate_still hedge, ⟨hfails, hsuccesses, hread, h.cooldown, hrevision⟩,
      Or.inl ⟨rfl, rfl, hnotFires, hnotResolves⟩⟩
  · have hallowed : allowedTransition history.state transition = true := by
      rw [hnext]
      cases history.state with
      | inactive | firing | resolved => rfl
    obtain ⟨draft, hdraft⟩ := @transitionDraft_admitted hooks rule target point history.state
      transition evidence (observedRevision current) (current.bind AlertRuleState.cooldownUntil)
      hadmitted hallowed
      (show observedRevision current + 1 ≤ maxCanonicalInt by
        rw [h.revision, h.counted]
        exact hcount) hms hfar
    obtain ⟨hprevious, hstate, hrevision', -⟩ := transitionDraft_data hdraft
    have hedge' : edge (point.sample rule target) (stateRead current)
        (countedFails point.outcome current) (countedSuccesses point.outcome current)
        (current.bind AlertRuleState.cooldownUntil) =
          some (transition, history.state, evidence.val) := by
      rw [hread, hfails, hsuccesses, h.cooldown]
      exact hedge
    subst hnext
    refine ⟨_, evaluate_moves hedge' hdraft, ⟨hfails, hsuccesses, rfl, ?_, hrevision⟩,
      Or.inr ⟨draft, rfl, rfl, hfires, hresolves, hstate, hprevious,
        hrevision'.trans hrevision⟩⟩
    rw [← h.cooldown]
    rfl

/-- **One sample meets the specification and keeps the invariant.** -/
theorem evaluate_tracked (hadmitted : Admitted hooks rule target)
    (h : Tracked rule history current) (hms : point.now.micros % 1000 = 0)
    (hfar : FarFromEnd rule point.now) (hcount : history.length < maxCanonicalInt) :
    ∃ evaluation, evaluateCanaryStateRule hooks (point.sample rule target) current =
        .ok evaluation ∧
      Meets rule history point evaluation ∧
      Tracked rule (history ++ [(point, evaluation)])
        (some (evaluation.update.row rule.key evaluation.update.revision point.now)) ∧
      (evaluation.transition = none ∨
        evaluation.transition = some (nextTransition history.state)) := by
  obtain ⟨evaluation, hevaluate, hstores, hmoves⟩ := evaluate_stores hadmitted h hms hfar hcount
  -- One of the two streaks ends with every point, so one of the counters is zero.
  have hzero : evaluation.update.consecutiveFailCount = 0 ∨
      evaluation.update.consecutiveSuccessCount = 0 := by
    rw [hstores.fails, hstores.successes, trailing_concat, trailing_concat]
    cases point.outcome with
    | success => exact Or.inl rfl
    | failure => exact Or.inr rfl
  have hstate : evaluation.update.currentState =
      AlertHistory.state (history ++ [(point, evaluation)]) := by
    rw [state_concat]
    exact hstores.state
  refine ⟨evaluation, hevaluate, ?_, h.next hms hstores, ?_⟩
  · rcases hmoves with ⟨hnone, hdraft, hnotFires, hnotResolves⟩ |
      ⟨draft, hsome, hdraft, hfires, hresolves, hto, hprevious, hrevision⟩
    · refine ⟨hstores.fails, hstores.successes, hzero, ?_, ?_, ?_, ?_, hstate⟩
      · rw [hnone]
        exact ⟨nofun, fun hf => absurd hf hnotFires⟩
      · rw [hnone]
        exact ⟨nofun, fun hr => absurd hr hnotResolves⟩
      · rw [hdraft, hnone]
        rfl
      · intro draft' hdraft'
        rw [hdraft] at hdraft'
        exact absurd hdraft'.symm (Option.some_ne_none draft')
    · refine ⟨hstores.fails, hstores.successes, hzero, ?_, ?_, ?_, ?_, hstate⟩
      · rw [hsome, ← hfires]
        exact Option.some_inj
      · rw [hsome, ← hresolves]
        exact Option.some_inj
      · rw [hdraft, hsome, ← hto]
        rfl
      · intro draft' hdraft'
        rw [hdraft] at hdraft'
        obtain rfl := Option.some.inj hdraft'
        exact ⟨hprevious, hrevision⟩
  · rcases hmoves with ⟨hnone, -⟩ | ⟨draft, hsome, -⟩
    · exact Or.inl hnone
    · exact Or.inr hsome

end Step

/-! ## Every trace -/

/-- **The alert engine meets its trace specification.** From no state, over samples of millisecond
instants that leave room for the cooldown and the expiry before the end of time, every sample of a
rule is evaluated, and as the samples before it ask; the transitions alternate, a firing first. -/
theorem evaluateTrace_meets {hooks : Hooks} {rule : AlertRuleSpec} {target : TargetDescriptor}
    {points : List TracePoint} (hadmitted : Admitted hooks rule target)
    (hms : ∀ point ∈ points, point.now.micros % 1000 = 0)
    (hfar : ∀ point ∈ points, FarFromEnd rule point.now)
    (hcount : points.length ≤ maxCanonicalInt) :
    ∃ evaluations, evaluateTrace hooks rule target none points = .ok evaluations ∧
      evaluations.length = points.length ∧
      (∀ history point evaluation later,
        points.zip evaluations = history ++ (point, evaluation) :: later →
        Meets rule history point evaluation) ∧
      Alternates .firing (AlertHistory.transitions (points.zip evaluations)) := by
  -- The induction needs the trace behind it: the state the evaluator carries is that of the
  -- history.
  have hall : ∀ (points : List TracePoint) (history : AlertHistory)
      (current : Option AlertRuleState), Tracked rule history current →
      (∀ point ∈ points, point.now.micros % 1000 = 0) →
      (∀ point ∈ points, FarFromEnd rule point.now) →
      history.length + points.length ≤ maxCanonicalInt →
      ∃ evaluations, evaluateTrace hooks rule target current points = .ok evaluations ∧
        evaluations.length = points.length ∧
        (∀ before point evaluation later,
          points.zip evaluations = before ++ (point, evaluation) :: later →
          Meets rule (history ++ before) point evaluation) ∧
        Alternates (nextTransition history.state)
          (AlertHistory.transitions (points.zip evaluations)) := by
    intro points
    induction points with
    | nil =>
        intro history current _ _ _ _
        refine ⟨[], rfl, rfl, ?_, trivial⟩
        intro before point evaluation later hzip
        cases before with
        | nil => cases hzip
        | cons => cases hzip
    | cons point rest ih =>
        intro history current htracked hms hfar hcount
        rw [List.length_cons] at hcount
        obtain ⟨evaluation, hevaluate, hmeets, hnext, htransition⟩ :=
          evaluate_tracked hadmitted htracked (hms point (List.mem_cons_self ..))
            (hfar point (List.mem_cons_self ..)) (by omega)
        obtain ⟨evaluations, hrest, hlength, hmeetsRest, halternates⟩ := ih _ _ hnext
          (fun p hp => hms p (List.mem_cons_of_mem _ hp))
          (fun p hp => hfar p (List.mem_cons_of_mem _ hp))
          (by rw [List.length_append, List.length_singleton]; omega)
        -- The first evaluation comes from the step lemma, the others with the longer history.
        refine ⟨evaluation :: evaluations, ?_, congrArg (· + 1) hlength, ?_, ?_⟩
        · unfold evaluateTrace
          exact Except.bind_eq_ok_iff.mpr ⟨_, hevaluate,
            Except.bind_eq_ok_iff.mpr ⟨_, hrest, rfl⟩⟩
        · intro before point' evaluation' later hzip
          rw [List.zip_cons_cons] at hzip
          cases before with
          | nil =>
              obtain ⟨hhead, -⟩ := List.cons.inj hzip
              obtain ⟨rfl, rfl⟩ := Prod.mk.inj hhead
              rw [List.append_nil]
              exact hmeets
          | cons first before =>
              obtain ⟨hhead, htail⟩ := List.cons.inj hzip
              have := hmeetsRest before point' evaluation' later htail
              rw [List.append_assoc] at this
              rw [← hhead]
              exact this
        · rw [state_concat] at halternates
          unfold AlertHistory.transitions
          rw [List.zip_cons_cons]
          -- An evaluation without an edge leaves the next transition as it is; one with an edge is
          -- it.
          rcases htransition with hnone | hsome
          · rw [hnone] at halternates
            have hskip : (point, evaluation).2.transition = none := hnone
            rw [List.filterMap_cons, hskip]
            exact halternates
          · rw [hsome] at halternates
            have htaken : (point, evaluation).2.transition =
              some (nextTransition history.state) := hsome
            rw [List.filterMap_cons, htaken]
            exact ⟨rfl, halternates⟩
  obtain ⟨evaluations, htrace, hlength, hmeets, halternates⟩ :=
    hall points [] none tracked_nil hms hfar (by rw [List.length_nil]; omega)
  exact ⟨evaluations, htrace, hlength, hmeets, halternates⟩

/-! ## The record contract -/

/-- The `type` of the payload. -/
def Payload.type : Payload → String
  | .alert _ => "alert"
  | .intent _ => "notification_intent"

def Payload.severity : Payload → String
  | .alert data => data.severity
  | .intent data => data.severity

/-- The model of the payload: `AlertDataV1` with `validate_transition`, `NotificationIntentDataV1`. -/
def Payload.valid : Payload → Bool
  | .alert data =>
      1 ≤ data.ruleVersion && data.ruleVersion ≤ maxCanonicalInt && 1 ≤ data.revision &&
        data.revision ≤ maxCanonicalInt && allowedTransition data.previousState data.state &&
        !data.evidenceIds.isEmpty && data.evidenceIds.all matchesRecordId
  | .intent data => !data.evidenceIds.isEmpty && data.evidenceIds.all matchesRecordId

/-- `RecordDraftV1.validate_contract` of an alert or an intent, less the byte bound on its text. -/
def validateContract (draft : RecordDraft) : Bool :=
  draft.recordType = draft.data.type && draft.scope = .target && draft.producer ≠ "collector" &&
    draft.privacyClass ≠ .restricted && draft.observedAt ≤ draft.ingestedAt &&
    draft.ingestedAt < draft.expiresAt && draft.severity = draft.data.severity && draft.data.valid

/-- The expiry of a draft lies a year after its instant, so its stamp is a later one. -/
theorem formatTimestamp_lt_of_addSeconds {now expiry : Instant} {seconds : Nat}
    (hpos : 0 < seconds) (h : now.addSeconds seconds = some expiry) :
    formatTimestamp now < formatTimestamp expiry := by
  unfold Instant.addSeconds at h
  split at h
  · obtain rfl := Option.some.inj h
    show now.micros / 1000 < (now.micros + seconds * 1000000) / 1000
    omega
  · cases h

/-- **The engine's drafts meet the contract**: every draft of an allowed transition, with the expiry
that `_alert_draft` gives it, whatever the hashes are. -/
theorem alertDraftFields_valid {hooks : Hooks} {sample : AlertSample} {observation : Observation}
    {alertKey transitionId : String} {previousState : AlertState} {state : AlertTransition}
    {revision : Nat} {evidence : RecordId} {expiry : Instant}
    (hversion : 1 ≤ sample.spec.ruleVersion ∧ sample.spec.ruleVersion ≤ maxCanonicalInt)
    (hallowed : allowedTransition previousState state = true)
    (hrevision : 1 ≤ revision ∧ revision ≤ maxCanonicalInt)
    (hexpiry : sample.now.addSeconds nominalExpiry = some expiry) :
    validateContract ((alertDraftFields hooks sample observation alertKey transitionId previousState
      state revision evidence.val expiry).map .alert) = true := by
  have hlater := formatTimestamp_lt_of_addSeconds (by decide : 0 < nominalExpiry) hexpiry
  have hvalid : Payload.valid (.alert (alertDraftFields hooks sample observation alertKey
      transitionId previousState state revision evidence.val expiry).data) = true := by
    unfold Payload.valid alertDraftFields
    simp only [hversion, hrevision, hallowed, decide_true, List.isEmpty_cons, List.all_cons,
      List.all_nil, evidence.property, Bool.and_self, Bool.not_false]
  unfold validateContract
  rw [show ((alertDraftFields hooks sample observation alertKey transitionId previousState state
    revision evidence.val expiry).map Payload.alert).data.valid = true from hvalid]
  unfold alertDraftFields Draft.map Payload.type Payload.severity
  simp [hlater]

/-- Under that contract a rule is admitted as soon as its identities are safe text. -/
theorem admitted_of_contract {hooks : Hooks} {rule : AlertRuleSpec} {target : TargetDescriptor}
    (hcontract : hooks.acceptsDraft = validateContract)
    (hruleId : requireAlertText rule.ruleId "rule id" = .ok rule.ruleId)
    (hversion : 1 ≤ rule.ruleVersion ∧ rule.ruleVersion ≤ maxCanonicalInt)
    (hcollector : requireAlertText rule.collector "collector" = .ok rule.collector)
    (htargetId : requireAlertText target.id "target" = .ok target.id)
    (hkey : requireAlertText (ruleAlertKey hooks rule target) "alert key" =
      .ok (ruleAlertKey hooks rule target)) :
    Admitted hooks rule target where
  ruleId := hruleId
  ruleVersion := hversion.1
  collector := hcollector
  targetId := htargetId
  alertKey := hkey
  draft := by
    intro point previousState state revision evidence expiry hallowed hpos hle _ hexpiry
    rw [hcontract]
    exact alertDraftFields_valid hversion hallowed ⟨hpos, hle⟩ hexpiry

/-- A rule that fires at the first failure, once a minute at most. -/
def sampleMinuteRule : AlertRuleSpec := ⟨"r", 1, "c", 1, 1, 60⟩

/-- An outage, a recovery, a second outage inside the cooldown, and its next sample past it. -/
def sampleTrace : List TracePoint :=
  [⟨.failure, some sampleRecordId, ⟨0, by decide⟩⟩,
    ⟨.success, some sampleRecordId, ⟨1000000, by decide⟩⟩,
    ⟨.failure, some sampleRecordId, ⟨2000000, by decide⟩⟩,
    ⟨.failure, some sampleRecordId, ⟨60000000, by decide⟩⟩]

def sampleTraceTarget : TargetDescriptor := ⟨"t", "T", "service", "prod"⟩

/-- The sample hashes, with the record contract. -/
def sampleContractHooks : Hooks := { sampleHooks with acceptsDraft := validateContract }

theorem evaluateTrace_meets_sample :
    ∃ evaluations,
      evaluateTrace sampleContractHooks sampleMinuteRule sampleTraceTarget none sampleTrace =
        .ok evaluations ∧
      evaluations.length = sampleTrace.length ∧
      (∀ history point evaluation later,
        sampleTrace.zip evaluations = history ++ (point, evaluation) :: later →
        Meets sampleMinuteRule history point evaluation) ∧
      Alternates .firing (AlertHistory.transitions (sampleTrace.zip evaluations)) := by
  have hadmitted : Admitted sampleContractHooks sampleMinuteRule sampleTraceTarget :=
    admitted_of_contract rfl rfl (by decide) rfl rfl rfl
  exact evaluateTrace_meets hadmitted (by decide) (by decide) (by decide)

end Milhouse
