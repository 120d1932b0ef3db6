import Milhouse.Alerts.Engine
import Milhouse.State.Database

/-!
# Milhouse — the alert rule state table

`_alert_rule_state` holds one row per rule and version. `advanceAlertState` replaces the row in one
transaction that first compares the stored revision with the one its caller observed, so a caller
that has been overtaken changes nothing. What a call can do to the table is said once:

* **`advanceAlertState_ok`** — a winner found the revision it expected and wrote the next one;
* **`advanceAlertState_error`** — a loser left the table as it was.
-/

namespace Milhouse

/-- The primary key of `_alert_rule_state`. -/
abbrev AlertKey := String × Nat

abbrev AlertTable := Table AlertKey AlertRuleState

def AlertRuleSpec.key (spec : AlertRuleSpec) : AlertKey := (spec.ruleId, spec.ruleVersion)

/-! ## Checks -/

/-- `_validate_identifier`. -/
def validateAlertIdentifier (value code subject : String) : Except StateError Unit :=
  if value.length = 0 ∨ 256 < value.length then
    .error ⟨code, s!"an alert {subject} must be bounded non-empty text"⟩
  else .ok ()

/-- `_validate_positive`. -/
def validateAlertPositive (value : Nat) (code subject : String) : Except StateError Unit :=
  if value < 1 then .error ⟨code, s!"an alert {subject} must be a whole number >= 1"⟩ else .ok ()

/-- `_validate_optional_text`. -/
def validateAlertOptionalText (value : Option String) (code subject : String) :
    Except StateError Unit :=
  match value with
  | none => .ok ()
  | some text =>
      if text.length = 0 ∨ 256 < text.length then
        .error ⟨code, s!"an alert {subject} must be absent or bounded non-empty text"⟩
      else .ok ()

/-- The checks both operations make of the key. -/
def alertKeyArguments (key : AlertKey) : Except StateError Unit := do
  validateAlertIdentifier key.1 "MH_STATE_ALERT_RULE" "rule id"
  validateAlertPositive key.2 "MH_STATE_ALERT_VERSION" "rule version"

def alertNotRead : StateError := ⟨"MH_STATE_ALERT", "the alert rule state could not be read"⟩

def alertNotAdvanced : StateError :=
  ⟨"MH_STATE_ALERT", "the alert rule state could not be advanced"⟩

def alertConflict : StateError :=
  ⟨"MH_STATE_ALERT_CONFLICT", "the alert rule state was advanced concurrently"⟩

/-! ## The operations -/

/-- `read_alert_state`; `sqlFails` is a `sqlite3.Error` of the query. -/
def readAlertState (sqlFails : Bool) (key : AlertKey) (rows : AlertTable) :
    Except StateError (Option AlertRuleState) :=
  match alertKeyArguments key with
  | .error e => .error e
  | .ok () =>
      -- binding a larger version raises `OverflowError`, which nothing here catches
      if sqliteMaxInteger < key.2 then .error ⟨unexpectedError.code, unexpectedError.message⟩
      else if sqlFails then .error alertNotRead
      else .ok (rows.lookup key)

/-- The row an update writes over a row of revision `revision - 1`. -/
def AlertStateUpdate.row (update : AlertStateUpdate) (key : AlertKey) (revision : Nat)
    (now : Instant) : AlertRuleState where
  ruleId := key.1
  ruleVersion := key.2
  consecutiveFailCount := update.consecutiveFailCount
  consecutiveSuccessCount := update.consecutiveSuccessCount
  currentState := update.currentState
  cooldownUntil := update.cooldownUntil
  lastSampleAt := some update.lastSampleAt
  lastTransitionId := update.lastTransitionId
  revision := revision
  updatedAt := formatTimestamp now

/-- The body of the `advance_alert_state` transaction. -/
def advanceAlertBody (key : AlertKey) (update : AlertStateUpdate) (now : Instant)
    (rows : AlertTable) : Except StateError (AlertRuleState × AlertTable) :=
  let currentRevision := observedRevision (rows.lookup key)
  if currentRevision ≠ update.expectedRevision then .error alertConflict
  else
    let revision := currentRevision + 1
    -- binding a larger `int` raises `OverflowError`, which the caller catches
    if sqliteMaxInteger < revision ∨ sqliteMaxInteger < key.2 ∨
        sqliteMaxInteger < update.consecutiveFailCount ∨
        sqliteMaxInteger < update.consecutiveSuccessCount then .error alertNotAdvanced
    else .ok (update.row key revision now, rows.insert key (update.row key revision now))

/-- `advance_alert_state`. -/
def advanceAlertState (fault : TxnFault) (key : AlertKey) (update : AlertStateUpdate)
    (now : Instant) (rows : AlertTable) : Except StateError AlertRuleState × AlertTable :=
  match (do
    alertKeyArguments key
    validateAlertOptionalText update.lastTransitionId "MH_STATE_ALERT_TRANSITION"
      "last transition id") with
  | .error e => (.error e, rows)
  | .ok () => transaction fault alertNotAdvanced (advanceAlertBody key update now) rows

/-! ## What a call can do -/

section Results

variable {fault : TxnFault} {key : AlertKey} {update : AlertStateUpdate} {now : Instant}
  {rows rows' : AlertTable} {row : AlertRuleState}

theorem readAlertState_ok {sqlFails : Bool} {current : Option AlertRuleState}
    (h : readAlertState sqlFails key rows = .ok current) : current = rows.lookup key := by
  unfold readAlertState at h
  split at h
  · cases h
  · split at h
    · cases h
    · split at h
      · cases h
      · exact (Except.ok.inj h).symm

/-- **A winner** found the revision it expected and wrote the next one. -/
theorem advanceAlertState_ok
    (h : advanceAlertState fault key update now rows = (.ok row, rows')) :
    observedRevision (rows.lookup key) = update.expectedRevision ∧
      row = update.row key (update.expectedRevision + 1) now ∧ rows' = rows.insert key row := by
  unfold advanceAlertState at h
  split at h
  · cases h
  · obtain ⟨-, hbody⟩ := transaction_ok h
    unfold advanceAlertBody at hbody
    dsimp only at hbody
    split at hbody
    · cases hbody
    · rename_i hrevision
      have hexpected : observedRevision (rows.lookup key) = update.expectedRevision :=
        not_not.mp hrevision
      split at hbody
      · cases hbody
      · rw [hexpected] at hbody
        obtain ⟨rfl, rfl⟩ := Prod.mk.inj (Except.ok.inj hbody)
        exact ⟨hexpected, rfl, rfl⟩

/-- **A loser** left the table as it was. -/
theorem advanceAlertState_error {e : StateError}
    (h : advanceAlertState fault key update now rows = (.error e, rows')) : rows' = rows := by
  unfold advanceAlertState at h
  split at h
  · exact (Prod.mk.inj h).2.symm
  · exact transaction_error h

end Results

end Milhouse
