import Milhouse.Spool.Change
import Milhouse.Spool.Commit
import Milhouse.Spool.Cursors
import Mathlib.Data.List.MinMax

/-!
# Milhouse — retention: the preview, and the pass that prunes

`retentionPreview` classifies every committed segment by the expiries of its records and changes
nothing. `retentionApply` decides again, with its own comparisons, and prunes: one transaction
detaches the cursors of the segment, deletes its delivery rows and its row, records a tombstone and
an audit row; then the file is unlinked, and the tombstone of a file that is durably gone is
cleared. `SegmentFaults` says which calls of one segment's turn fail. Both entry points refuse bad
arguments before they read the ledger; the pass starts with the barrier held and the ledger read.

* **`pruneTransaction_cases`** — the transaction commits exactly where nothing fails, the segment has no
  tombstone and its counts can be audited; otherwise the tables are as they were.
-/

namespace Milhouse.Retention

open Disk

/-! ## The audit trail -/

/-- A row of `_audit`; its id is its place in the table. -/
structure AuditRow where
  recordedAt : Stamp
  action : String
  actor : String
  outcome : String
  resource : Option String
  reason : String
  recordCount : Nat
  byteSize : Nat
  contentSha256 : Option String
  fileSha256 : Option String
  deriving DecidableEq, Repr

/-- `_validate_resource`: `[A-Za-z0-9][A-Za-z0-9._-]{0,255}`. -/
def validateResource (value : String) : Except StateError Unit :=
  if matchesId 255 value then .ok ()
  else .error ⟨"MH_STATE_AUDIT", "an audit resource must be an opaque identifier, not free text"⟩

/-- `_validate_count`. -/
def validateCount (value : Nat) (subject : String) : Except StateError Unit :=
  if value ≤ sqliteMaxInteger then .ok ()
  else .error ⟨"MH_STATE_AUDIT", s!"an audit {subject} must be a whole number in 0..2^63-1"⟩

/-- The row of one prune; without a pseudonymizer its resource is `NULL`. -/
def pruneRow (now : Instant) (recordCount byteSize : Nat) (undelivered : Bool) : AuditRow where
  recordedAt := formatTimestamp now
  action := "retention_prune"
  actor := "maintenance"
  outcome := if undelivered then "pruned_undelivered" else "pruned"
  resource := none
  reason := if undelivered then "expired_undelivered" else "expired"
  recordCount := recordCount
  byteSize := byteSize
  contentSha256 := none
  fileSha256 := none

/-- `record_retention_prune`, as `_prune_segment` calls it. -/
def recordRetentionPrune (now : Instant) (batchId : String) (recordCount byteSize : Nat)
    (undelivered : Bool) (audit : List AuditRow) : Except StateError (List AuditRow) := do
  validateResource batchId
  validateCount recordCount "record count"
  validateCount byteSize "byte size"
  pure (audit ++ [pruneRow now recordCount byteSize undelivered])

/-! ## The state, and what may fail in one segment's turn -/

/-- The spool with the audit table of its database. -/
structure RetentionState where
  spool : SpoolState
  audit : List AuditRow

/-- The tables of the prune transaction. -/
structure PruneTables where
  ledger : Ledger
  audit : List AuditRow

/-- Where SQLite fails in the prune transaction. -/
inductive PruneFault where
  | none
  | begin
  /-- Its `index`-th statement, counted from 0. -/
  | statement (index : Fin 5)
  | commit
  deriving DecidableEq, Repr

/-- How the removal of the file fails. -/
inductive UnlinkFault where
  | none
  /-- A call up to the unlink; the file stays. -/
  | before
  /-- The unlink is commit-uncertain; the name is `gone` or not. -/
  | uncertain (gone : Bool)
  deriving DecidableEq, Repr

/-- The calls that fail in one segment's turn. -/
structure SegmentFaults where
  /-- The code a call of the trusted read fails with. -/
  read : Option String
  prune : PruneFault
  unlink : UnlinkFault
  /-- The transaction that clears the tombstone. -/
  clear : TxnFault

/-- Nothing fails. -/
def SegmentFaults.none : SegmentFaults := ⟨.none, .none, .none, .none⟩

/-! ## What is reported -/

inductive Status where
  | fullyExpired
  | mixed
  | live
  | unreadable
  | disagreeing
  deriving DecidableEq, Repr

structure SegmentRetention where
  batchId : String
  status : Status
  recordCount : Nat
  byteSize : Nat
  delivered : Bool
  code : Option String
  deriving DecidableEq, Repr

structure RetentionPreview where
  segments : List SegmentRetention

namespace RetentionPreview

def fullyExpired (p : RetentionPreview) : List SegmentRetention :=
  p.segments.filter fun s => s.status = .fullyExpired

def undeliveredExpired (p : RetentionPreview) : List SegmentRetention :=
  p.fullyExpired.filter fun s => !s.delivered

def reclaimableRecords (p : RetentionPreview) : Nat := (p.fullyExpired.map (·.recordCount)).sum

def reclaimableBytes (p : RetentionPreview) : Nat := (p.fullyExpired.map (·.byteSize)).sum

end RetentionPreview

/-- The tri-state `file_outcome`. -/
inductive FileOutcome where
  | removed
  | orphaned
  | uncertain
  deriving DecidableEq, Repr

structure PrunedSegment where
  batchId : String
  recordCount : Nat
  byteSize : Nat
  delivered : Bool
  fileOutcome : FileOutcome
  deriving DecidableEq, Repr

structure RetentionResult where
  pruned : List PrunedSegment
  skipped : List SegmentRetention

namespace RetentionResult

def prunedRecords (r : RetentionResult) : Nat := (r.pruned.map (·.recordCount)).sum

def prunedBytes (r : RetentionResult) : Nat := (r.pruned.map (·.byteSize)).sum

def undeliveredPruned (r : RetentionResult) : List PrunedSegment :=
  r.pruned.filter fun s => !s.delivered

/-- One turn's outcome, appended. -/
def add (r : RetentionResult) : Except SegmentRetention PrunedSegment → RetentionResult
  | .ok pruned => { r with pruned := r.pruned ++ [pruned] }
  | .error skipped => { r with skipped := r.skipped ++ [skipped] }

end RetentionResult

/-! ## Reading a segment -/

section Reading

variable (fmt : SegmentFormat)

/-- `read_trusted_segment` where no call fails. -/
def trustedSegment (s : SpoolState) (p : Path) : Except String (ParsedSegment fmt.Frame) :=
  match s.stat p with
  | none => .error "MH_SPOOL_NOT_FOUND"
  | some f =>
      if f.shape = .special then .error "MH_SPOOL_NOT_REGULAR"
      else if f.shape ≠ .private then .error "MH_SPOOL_UNSAFE"
      else if maxSegmentFileBytes < f.content.length then .error "MH_SPOOL_SIZE"
      else match fmt.read f.content with
        | .error e => .error e.code
        | .ok parsed => .ok parsed

/-- The path of a record's file. -/
def recordPath (record : SegmentRecord) : Path := segmentPath record.day record.batchId

/-- Every required exporter has delivered. -/
def isDelivered (record : SegmentRecord) : Bool := record.exporters.all fun e => e.2 = .delivered

/-- `max(expiries)`. -/
def latest (expiries : List Stamp) : Stamp := expiries.max?.getD 0

/-- `min(expiries)`. -/
def earliest (expiries : List Stamp) : Stamp := expiries.min?.getD 0

/-- `expires_at <= now`; an expiry has whole milliseconds. -/
def passed (expiresAt : Stamp) (now : Instant) : Bool := (expiresAt * 1000 : Nat) ≤ now.micros

/-- `expires_at > now`. -/
def ahead (expiresAt : Stamp) (now : Instant) : Bool := now.micros < (expiresAt * 1000 : Nat)

end Reading

/-! ## The preview -/

section Preview

variable (fmt : SegmentFormat)

/-- A record's classification. -/
def report (record : SegmentRecord) (status : Status) (code : Option String) : SegmentRetention :=
  ⟨record.batchId, status, record.recordCount, record.byteSize, isDelivered record, code⟩

/-- `_classify`. -/
def classify (s : SpoolState) (now : Instant) (record : SegmentRecord) : SegmentRetention :=
  match trustedSegment fmt s (recordPath record) with
  | .error code => report record .unreadable (some code)
  | .ok parsed =>
      if !agrees parsed record.day record.batchId record then
        report record .disagreeing (some "MH_SPOOL_VERIFY")
      else
        let expiries := parsed.frames.map fmt.expiresAt
        if expiries = [] then report record .live none
        else if passed (latest expiries) now then report record .fullyExpired none
        else if passed (earliest expiries) now then report record .mixed none
        else report record .live none

/-- `retention_preview`. -/
def retentionPreview (now : Instant) (s : RetentionState) : RetentionPreview :=
  ⟨s.spool.ledger.records.map (classify fmt s.spool now)⟩

end Preview

/-! ## The prune -/

/-- The statements of the prune transaction, in order; `none` is a raised error. -/
def pruneStatements (record : SegmentRecord) (now : Instant) (delivered : Bool) :
    List (PruneTables → Option PruneTables) :=
  [ fun t => some { t with
      ledger := { t.ledger with cursors := t.ledger.detachCursors record.batchId } },
    fun t => some { t with
      ledger := { t.ledger with exporters := t.ledger.dropExporters record.batchId } },
    fun t => (t.ledger.deleteSegmentRow record.batchId).map fun ledger => { t with ledger },
    fun t => (t.ledger.insertRetirement record (formatTimestamp now)).map fun ledger =>
      { t with ledger },
    fun t => (recordRetentionPrune now record.batchId record.recordCount record.byteSize
      (!delivered) t.audit).toOption.map fun audit => { t with audit } ]

/-- Run statements in order, the one at `failing` raising. -/
def runStatements {σ : Type} (failing : Option Nat) : List (σ → Option σ) → σ → Option σ
  | [], t => some t
  | statement :: rest, t =>
      if failing = some 0 then none
      else (statement t).bind (runStatements (failing.map (· - 1)) rest)

/-- A raised error of the transaction, which `_prune_segment` catches. -/
def pruneFailed : StateError := ⟨"MH_STATE_TXN", "the prune transaction failed"⟩

/-- The transaction of `_prune_segment`, whether it committed and the tables after it. -/
def pruneTransaction (fault : PruneFault) (record : SegmentRecord) (now : Instant)
    (delivered : Bool) (t : PruneTables) : Except StateError Unit × PruneTables :=
  let failing := match fault with
    | .statement index => some index.val
    | _ => none
  let txn := match fault with
    | .begin => TxnFault.begin
    | .commit => TxnFault.commit
    | _ => TxnFault.none
  transaction txn pruneFailed (fun t =>
    match runStatements failing (pruneStatements record now delivered) t with
    | some t' => .ok ((), t')
    | none => .error pruneFailed) t

/-- `remove_regular_file_no_follow`, under the fault of the turn. -/
def removeFile (fault : UnlinkFault) (s : SpoolState) (p : Path) : FileOutcome × SpoolState :=
  match s.stat p with
  | none => (.orphaned, s)
  | some f =>
      if f.shape ≠ .private then (.orphaned, s)
      else match fault with
        | .none => (.removed, (s.remove p).syncDir p.tree p.day)
        | .before => (.orphaned, s)
        | .uncertain gone => (.uncertain, if gone then s.remove p else s)

/-- `_clear_retirement`: best effort. -/
def clearRetirement (fault : TxnFault) (s : SpoolState) (batchId : String) : SpoolState :=
  if fault = .none then s.dropTombstone batchId else s

/-- `_prune_segment`; `none` is a prune whose transaction failed. -/
def pruneSegment (faults : SegmentFaults) (record : SegmentRecord) (now : Instant)
    (delivered : Bool) (s : RetentionState) : Option PrunedSegment × RetentionState :=
  match pruneTransaction faults.prune record now delivered ⟨s.spool.ledger, s.audit⟩ with
  | (.error _, t) => (none, ⟨s.spool.setLedger t.ledger, t.audit⟩)
  | (.ok (), t) =>
      let (fileOutcome, spool) := removeFile faults.unlink (s.spool.setLedger t.ledger)
        (recordPath record)
      let spool := if fileOutcome = .removed then clearRetirement faults.clear spool record.batchId
        else spool
      (some ⟨record.batchId, record.recordCount, record.byteSize, delivered, fileOutcome⟩,
        ⟨spool, t.audit⟩)

/-! ## The pass -/

section Pass

variable (fmt : SegmentFormat)

/-- `_apply_one`: `ok` is a pruned segment, `error` the classification of a skipped one. -/
def applyOne (faults : SegmentFaults) (now : Instant) (record : SegmentRecord)
    (s : RetentionState) : Except SegmentRetention PrunedSegment × RetentionState :=
  let skip (status : Status) (code : Option String) := (.error (report record status code), s)
  match faults.read with
  | some code => skip .unreadable (some code)
  | none =>
  match trustedSegment fmt s.spool (recordPath record) with
  | .error code => skip .unreadable (some code)
  | .ok parsed =>
      if !agrees parsed record.day record.batchId record then
        skip .disagreeing (some "MH_SPOOL_VERIFY")
      else
        let expiries := parsed.frames.map fmt.expiresAt
        if expiries = [] ∨ ahead (latest expiries) now then
          skip (if expiries = [] ∨ ahead (earliest expiries) now then .live else .mixed) none
        else match pruneSegment faults record now (isDelivered record) s with
          | (none, s') => (.error (report record .fullyExpired (some "MH_SPOOL_RETENTION")), s')
          | (some pruned, s') => (.ok pruned, s')

/-- The loop of `retention_apply`. -/
def applyAll (faults : String → SegmentFaults) (now : Instant) :
    List SegmentRecord → RetentionResult → RetentionState → RetentionResult × RetentionState
  | [], result, s => (result, s)
  | record :: rest, result, s =>
      let (outcome, s') := applyOne fmt (faults record.batchId) now record s
      applyAll faults now rest (result.add outcome) s'

/-- `retention_apply`, confirmed; `faults` says what fails in the turn of each batch id. -/
def retentionApply (faults : String → SegmentFaults) (now : Instant) (s : RetentionState) :
    RetentionResult × RetentionState :=
  applyAll fmt faults now s.spool.ledger.records ⟨[], []⟩ s

end Pass

/-! ## What the transaction does -/

section Transaction

variable {σ : Type} {record : SegmentRecord} {now : Instant} {delivered : Bool} {t : PruneTables}

/-- A failing statement ends the run. -/
theorem runStatements_failing {statements : List (σ → Option σ)} {index : Nat} {t : σ}
    (h : index < statements.length) : runStatements (some index) statements t = none := by
  induction statements generalizing index t with
  | nil => exact absurd h (Nat.not_lt_zero _)
  | cons statement rest ih =>
      unfold runStatements
      cases index with
      | zero => rfl
      | succ index =>
          rw [if_neg (by simp)]
          show (statement t).bind (runStatements (some index) rest) = none
          rw [Option.bind_eq_none_iff]
          intro t' _
          exact ih (Nat.lt_of_succ_lt_succ h)

/-- What the audit row of a prune asks of the ledger row. -/
def Auditable (record : SegmentRecord) : Prop :=
  matchesId 255 record.batchId = true ∧ record.recordCount ≤ sqliteMaxInteger ∧
    record.byteSize ≤ sqliteMaxInteger

/-- The row a prune of the record adds to the audit table. -/
def auditRow (record : SegmentRecord) (now : Instant) : AuditRow :=
  pruneRow now record.recordCount record.byteSize (!isDelivered record)

theorem recordRetentionPrune_toOption {undelivered : Bool} {audit : List AuditRow} :
    (recordRetentionPrune now record.batchId record.recordCount record.byteSize undelivered
      audit).toOption.isSome ↔ Auditable record := by
  unfold recordRetentionPrune validateResource validateCount Auditable
  by_cases hid : matchesId 255 record.batchId
  · by_cases hcount : record.recordCount ≤ sqliteMaxInteger
    · by_cases hsize : record.byteSize ≤ sqliteMaxInteger
      · simp [hid, hcount, hsize, bind, Except.bind, pure, Except.pure, Except.toOption]
      · simp [hid, hcount, hsize, bind, Except.bind, Except.toOption]
    · simp [hid, hcount, bind, Except.bind, Except.toOption]
  · simp [hid, bind, Except.bind, Except.toOption]

theorem recordRetentionPrune_of_auditable (h : Auditable record) {undelivered : Bool}
    {audit : List AuditRow} :
    recordRetentionPrune now record.batchId record.recordCount record.byteSize undelivered audit =
      .ok (audit ++ [pruneRow now record.recordCount record.byteSize undelivered]) := by
  unfold recordRetentionPrune validateResource validateCount
  rw [if_pos h.1, if_pos h.2.1, if_pos h.2.2]
  rfl

/-- Where nothing fails the statements are the ledger's prune and the audit row. -/
theorem runStatements_none : runStatements none (pruneStatements record now delivered) t =
    (t.ledger.pruneSegment record (formatTimestamp now)).bind fun ledger =>
      (recordRetentionPrune now record.batchId record.recordCount record.byteSize (!delivered)
        t.audit).toOption.map fun audit => ⟨ledger, audit⟩ := by
  rw [← Ledger.pruneStatements_eq]
  unfold pruneStatements Ledger.pruneStatements
  simp only [runStatements, Option.bind_some, Option.map_none, reduceCtorEq, if_false]
  cases ({ t.ledger with
      cursors := t.ledger.detachCursors record.batchId
      exporters := ({ t.ledger with cursors := t.ledger.detachCursors record.batchId } :
        Ledger).dropExporters record.batchId } : Ledger).deleteSegmentRow record.batchId with
  | none => rfl
  | some deleted =>
      simp only [Option.map_some, Option.bind_some]
      cases deleted.insertRetirement record (formatTimestamp now) with
      | none => rfl
      | some ledger =>
          simp only [Option.map_some, Option.bind_some]
          cases (recordRetentionPrune now record.batchId record.recordCount record.byteSize
            (!delivered) t.audit).toOption <;> rfl

/-- When the transaction of a prune commits. -/
def Prunes (fault : PruneFault) (record : SegmentRecord) (ledger : Ledger) : Prop :=
  fault = .none ∧ ledger.retirements.lookup record.batchId = none ∧ Auditable record

/-- **The prune transaction** commits all of its writes or leaves every table as it was. -/
theorem pruneTransaction_cases (fault : PruneFault) (record : SegmentRecord) (now : Instant)
    (delivered : Bool) (t : PruneTables) :
    (Prunes fault record t.ledger ∧ ∃ ledger,
      t.ledger.pruneSegment record (formatTimestamp now) = some ledger ∧
      pruneTransaction fault record now delivered t = (.ok (), ⟨ledger, t.audit ++
        [pruneRow now record.recordCount record.byteSize (!delivered)]⟩)) ∨
    (¬ Prunes fault record t.ledger ∧ ∃ e,
      pruneTransaction fault record now delivered t = (.error e, t)) := by
  cases fault with
  | begin => exact Or.inr ⟨(fun h => nomatch h.1), beginFailed, rfl⟩
  -- A statement that fails rolls the whole transaction back.
  | statement index =>
      refine Or.inr ⟨(fun h => nomatch h.1), pruneFailed, ?_⟩
      unfold pruneTransaction transaction
      simp only
      rw [runStatements_failing (by exact index.isLt)]
  | commit =>
      refine Or.inr ⟨(fun h => nomatch h.1), ?_⟩
      unfold pruneTransaction transaction
      simp only
      cases runStatements none (pruneStatements record now delivered) t with
      | none => exact ⟨pruneFailed, rfl⟩
      | some t' => exact ⟨commitFailed, rfl⟩
  | none =>
      have heq : pruneTransaction .none record now delivered t =
          transaction .none pruneFailed (fun t =>
            match runStatements none (pruneStatements record now delivered) t with
            | some t' => .ok ((), t')
            | none => .error pruneFailed) t := rfl
      cases hledger : t.ledger.pruneSegment record (formatTimestamp now) with
      | none =>
          refine Or.inr ⟨fun h => ?_, pruneFailed, ?_⟩
          · unfold Ledger.pruneSegment at hledger
            rw [h.2.1] at hledger
            cases hledger
          · rw [heq, transaction, runStatements_none, hledger]
            rfl
      | some ledger =>
          -- The audit row is the last statement, and it is refused where a count is out of range.
          by_cases haudit : Auditable record
          · refine Or.inl ⟨⟨rfl, (Ledger.pruneSegment_eq hledger).1, haudit⟩, ledger, rfl, ?_⟩
            rw [heq, transaction, runStatements_none, hledger,
              recordRetentionPrune_of_auditable haudit]
            rfl
          · refine Or.inr ⟨fun h => haudit h.2.2, pruneFailed, ?_⟩
            have hnone : (recordRetentionPrune now record.batchId record.recordCount
                record.byteSize (!delivered) t.audit).toOption = none := by
              rw [← Option.not_isSome_iff_eq_none, recordRetentionPrune_toOption]
              exact haudit
            rw [heq, transaction, runStatements_none, hledger]
            simp only [Option.bind_some, hnone, Option.map_none]

end Transaction

end Milhouse.Retention
