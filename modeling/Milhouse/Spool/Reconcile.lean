import Milhouse.Spool.Quarantine
import Mathlib.Data.List.Dedup

/-!
# Milhouse — the reconciliation pass

`reconcilePass` is the body of `_Scan.run` between taking the barrier and handing over to a
writer. It first classifies every leaf of `pending` against the ledger and the tombstones without
changing anything, collecting the mutations to make in a `Scan`; only if the inventory was complete
and the anomaly budget was not exhausted are they made, in the order staging cleanups,
registrations, retirements, tombstones, quarantine moves.
-/

namespace Milhouse

open Interaction Interaction.Prog

/-- A spool/ledger disagreement that was surfaced but not resolved. -/
structure SegmentAnomaly where
  batchId : String
  day : Option Day
  kind : String
  detail : String
  deriving DecidableEq, Repr

/-- A file classified for quarantine. -/
structure Subject where
  day : Day
  name : String
  snapshot : Snapshot
  digest : String
  batchId : String
  detail : String

/-- A valid segment file without a row, waiting for registration. -/
structure Orphan (Frame : Type) where
  parsed : ParsedSegment Frame
  batchId : String
  day : Day

/-- A leaf whose name is a well-formed `<batch-id>.jsonl`. -/
structure Candidate where
  day : Day
  batchId : String
  deriving DecidableEq, Repr

def Candidate.path (c : Candidate) : Path := segmentPath c.day c.batchId

/-- What classification has collected so far. -/
structure Scan (Frame : Type) where
  candidates : List Candidate
  registrations : List (Orphan Frame)
  /-- day, batch id and expected digest of a retired file that is still there -/
  retirements : List (Day × String × String)
  /-- batch id and day of a tombstone whose retired file is not there -/
  tombstones : List (String × Day)
  quarantines : List Subject
  cleanups : List (Day × String × Snapshot)
  anomalies : List SegmentAnomaly
  healthy : Nat

def Scan.empty {Frame : Type} : Scan Frame := ⟨[], [], [], [], [], [], [], 0⟩

namespace Scan

variable {Frame : Type}

def anomaly (scan : Scan Frame) (batchId : String) (day : Option Day) (kind detail : String) :
    Scan Frame :=
  { scan with anomalies := scan.anomalies ++ [⟨batchId, day, kind, detail⟩] }

def candidate (scan : Scan Frame) (c : Candidate) : Scan Frame :=
  { scan with candidates := scan.candidates ++ [c] }

def quarantine (scan : Scan Frame) (subject : Subject) : Scan Frame :=
  { scan with quarantines := scan.quarantines ++ [subject] }

def tombstone (scan : Scan Frame) (batchId : String) (day : Day) : Scan Frame :=
  { scan with tombstones := scan.tombstones ++ [(batchId, day)] }

end Scan

def maxAnomalies : Nat := 100000

/-- The codes whose subject cannot be moved: `_UNQUARANTINABLE`. -/
def unquarantinable : List String :=
  ["MH_SPOOL_CHANGED", "MH_SPOOL_NOT_FOUND", "MH_SPOOL_NOT_REGULAR"]

/-- `authorize_local_persistence`: every class but `restricted` may be persisted locally. -/
def authorizeLocalPersistence (privacyClass : PrivacyClass) : Bool :=
  privacyClass ≠ .restricted

/-- `_agrees`: every file-attestable immutable field of the row repeats the file's. -/
def agrees {Frame : Type} (parsed : ParsedSegment Frame) (day : Day) (batchId : String)
    (record : SegmentRecord) : Bool :=
  parsed.header.batchId = batchId && batchId = record.batchId && day = record.day
    && record.schemaVersion = schemaVersion && record.frameVersion = frameVersion
    && parsed.header.configGeneration = record.configGeneration
    && parsed.header.scope = record.scope && parsed.header.targetId = record.targetId
    && parsed.header.privacyClass = record.privacyClass
    && parsed.header.retentionDays = record.retentionDays
    && parsed.header.recordCount = record.recordCount
    && parsed.header.contentSha256 = record.contentSha256
    && parsed.byteSize = record.byteSize && parsed.fileSha256 = record.fileSha256
    && (parsed.header.requiredExporters.all fun e => e ∈ record.exporters.map (·.1))
    && (record.exporters.all fun e => e.1 ∈ parsed.header.requiredExporters)

/-! ## Names -/

/-- A staging name that is exact empty debris: `_failed_staging_snapshot`. -/
def failedStagingSnapshot (name : String) (f : File) : Option Snapshot :=
  let reservation := retirePrefix.toList <+: name.toList ∧
    retirementCandidate name f.snapshot = none
  if (reservation ∨ isWriterStage name) ∧ f.shape = .restricted ∧ f.content = [] then
    some f.snapshot
  else none

/-! ## Classification -/

section Classification

variable (fmt : SegmentFormat)

/-- `_queue_quarantine`: classify the leaf by content, or report it. -/
def queueQuarantine (scan : Scan fmt.Frame) (day : Day) (name batchId detail : String) :
    SpoolProg (Scan fmt.Frame) := do
  match ← certifyLeaf fmt ⟨.pending, day, name⟩ with
  | none => pure (scan.anomaly batchId (some day) "quarantine_blocked" "unsafe")
  | some (snapshot, digest) =>
      pure (scan.quarantine ⟨day, name, snapshot, digest, batchId, detail⟩)

/-- One leaf of the inventory: a staged temporary, a foreign name, or a candidate. -/
def inventoryLeaf (scan : Scan fmt.Frame) (leaf : Day × String) :
    SpoolProg (Bool × Scan fmt.Frame) := do
  let (day, name) := leaf
  if stagePrefix.toList <+: name.toList then
    let scan := scan.anomaly "" (some day) "stale_temp" "staged_temporary"
    match (← call (Γ := spoolSignature) (.readFile ⟨.pending, day, name⟩) :
        Except ReadFault File) with
    | .error _ => pure (true, ← queueQuarantine fmt scan day name "" "stale_temp")
    | .ok f =>
        match failedStagingSnapshot name f with
        | some snapshot =>
            pure (true, { scan with cleanups := scan.cleanups ++ [(day, name, snapshot)] })
        | none => pure (true, ← queueQuarantine fmt scan day name "" "stale_temp")
  else match batchIdOfName name with
    | .error detail => pure (true, scan.anomaly "" (some day) "foreign_name" detail)
    | .ok batchId => pure (true, scan.candidate ⟨day, batchId⟩)

/-- `_verify_committed`. -/
def verifyCommitted (scan : Scan fmt.Frame) (c : Candidate) (record : SegmentRecord) :
    SpoolProg (Scan fmt.Frame) := do
  match ← readTrustedSegment fmt c.path true with
  | .error code =>
      let scan := scan.anomaly c.batchId (some c.day) "corrupt_file" code
      if code ∈ unquarantinable then pure scan
      else queueQuarantine fmt scan c.day (segmentName c.batchId) c.batchId code
  | .ok parsed =>
      if agrees parsed c.day c.batchId record then pure { scan with healthy := scan.healthy + 1 }
      else
        let scan := scan.anomaly c.batchId (some c.day) "corrupt_file" "ledger_mismatch"
        queueQuarantine fmt scan c.day (segmentName c.batchId) c.batchId "ledger_mismatch"

/-- `_reconcile_orphan`. -/
def reconcileOrphan (scan : Scan fmt.Frame) (c : Candidate) : SpoolProg (Scan fmt.Frame) := do
  match ← readTrustedSegment fmt c.path true with
  | .error code =>
      let scan := scan.anomaly c.batchId (some c.day) "corrupt_orphan" code
      if code ∈ unquarantinable then pure scan
      else queueQuarantine fmt scan c.day (segmentName c.batchId) c.batchId code
  | .ok parsed =>
      if parsed.header.batchId ≠ c.batchId then
        pure (scan.anomaly c.batchId (some c.day) "foreign_name" "header_batch_id")
      else if !authorizeLocalPersistence parsed.header.privacyClass then
        let scan := scan.anomaly c.batchId (some c.day) "corrupt_orphan" "MH_SPOOL_EGRESS"
        queueQuarantine fmt scan c.day (segmentName c.batchId) c.batchId "MH_SPOOL_EGRESS"
      else pure { scan with registrations := scan.registrations ++ [⟨parsed, c.batchId, c.day⟩] }

/-- The record of one batch id among the ledger rows read at the start of the pass. -/
def recordOf (ledger : List SegmentRecord) (batchId : String) : Option SegmentRecord :=
  ledger.find? (·.batchId = batchId)

/-- The tombstone of one batch id among those read at the start of the pass. -/
def retirementOf (retirements : List (String × Retirement)) (batchId : String) :
    Option Retirement :=
  (retirements.find? (·.1 = batchId)).map (·.2)

/-- How many candidates carry a batch id. -/
def copiesOf (candidates : List Candidate) (batchId : String) : List Candidate :=
  candidates.filter (·.batchId = batchId)

/-- Route one candidate: duplicates first, then the ledger, then the tombstones. -/
def routeCandidate (ledger : List SegmentRecord) (retirements : List (String × Retirement))
    (candidates : List Candidate) (scan : Scan fmt.Frame) (c : Candidate) :
    SpoolProg (Bool × Scan fmt.Frame) := do
  if 1 < (copiesOf candidates c.batchId).length then
    pure (true, scan.anomaly c.batchId (some c.day) "conflict" "duplicate_batch_id")
  else match recordOf ledger c.batchId with
    | some record => pure (true, ← verifyCommitted fmt scan c record)
    | none =>
        match retirementOf retirements c.batchId with
        | none => pure (true, ← reconcileOrphan fmt scan c)
        | some retirement =>
            let digest ← rawSha256 fmt c.path
            if digest = some retirement.fileSha256 then
              pure (true, { scan with
                retirements := scan.retirements ++ [(c.day, c.batchId, retirement.fileSha256)] })
            else
              pure (true, ← reconcileOrphan fmt (scan.tombstone c.batchId c.day) c)

/-- The copy the ledger designates: it is on the record's day and agrees with the record. -/
def findKeeper (ledger : List SegmentRecord) (batchId : String) (copies : List Candidate) :
    SpoolProg (Option Candidate) := do
  match recordOf ledger batchId with
  | none => pure none
  | some record =>
      match copies.find? (·.day = record.day) with
      | none => pure none
      | some c =>
          match ← readTrustedSegment fmt c.path true with
          | .error _ => pure none
          | .ok parsed => pure (if agrees parsed c.day batchId record then some c else none)

/-- `_conflict_detail`: whether every copy could be read and all have one digest. -/
def conflictDetail : List Candidate → Option String → SpoolProg String
  | [], _ => pure "conflict_duplicate"
  | c :: rest, first => do
      match ← rawSha256 fmt c.path with
      | none => pure "conflict_divergent"
      | some digest =>
          if first.any (· ≠ digest) then pure "conflict_divergent"
          else conflictDetail rest (some digest)

/-- Queue every copy of a conflicted batch but the keeper. -/
def queueCopies (batchId detail : String) (keeper : Option Candidate) (copies : List Candidate)
    (scan : Scan fmt.Frame) : SpoolProg (Scan fmt.Frame) :=
  foldUntil copies scan fun scan c => do
    if some c = keeper then pure (true, scan)
    else pure (true, ← queueQuarantine fmt scan c.day (segmentName c.batchId) batchId detail)

/-- One conflicted batch id. -/
def resolveConflict (ledger : List SegmentRecord) (candidates : List Candidate)
    (scan : Scan fmt.Frame) (batchId : String) : SpoolProg (Bool × Scan fmt.Frame) := do
  let copies := copiesOf candidates batchId
  let keeper ← findKeeper fmt ledger batchId copies
  let scan := if keeper.isSome then { scan with healthy := scan.healthy + 1 } else scan
  let detail ← conflictDetail fmt copies none
  pure (true, ← queueCopies fmt batchId detail keeper copies scan)

/-- The batch ids with more than one copy, sorted. -/
def conflicted (candidates : List Candidate) : List String :=
  ((candidates.map (·.batchId)).dedup.filter fun b =>
    1 < (copiesOf candidates b).length).insertionSort (· ≤ ·)

theorem mem_conflicted {candidates : List Candidate} {b : String} :
    b ∈ conflicted candidates ↔
      (∃ c ∈ candidates, c.batchId = b) ∧ 1 < (copiesOf candidates b).length := by
  rw [conflicted, List.mem_insertionSort, List.mem_filter, List.mem_dedup, List.mem_map,
    decide_eq_true_eq]

/-- Ledger rows without a file, and tombstones whose file is gone or whose id was reused. -/
def classifyAbsent (ledger : List SegmentRecord) (retirements : List (String × Retirement))
    (scan : Scan fmt.Frame) : Scan fmt.Frame :=
  let seen (batchId : String) : Bool := scan.candidates.any (·.batchId = batchId)
  let missing := ledger.filter fun r => !seen r.batchId
  let scan := missing.foldl
    (fun scan r => scan.anomaly r.batchId (some r.day) "missing_file" "absent") scan
  let stale := retirements.filter fun t => !seen t.1 || (recordOf ledger t.1).isSome
  stale.foldl (fun scan t => scan.tombstone t.1 t.2.day) scan

/-- Everything the pass decides before its first mutation. -/
def classify (ledger : List SegmentRecord) (retirements : List (String × Retirement))
    (leaves : List (Day × String)) : SpoolProg (Scan fmt.Frame) := do
  let scan ← foldUntil leaves Scan.empty (inventoryLeaf fmt)
  let candidates := scan.candidates
  let scan ← foldUntil candidates scan (routeCandidate fmt ledger retirements candidates)
  let scan ← foldUntil (conflicted candidates) scan (resolveConflict fmt ledger candidates)
  pure (classifyAbsent fmt ledger retirements scan)

end Classification

/-! ## Mutation -/

/-- The outcome of one pass. -/
structure ReconciliationReport where
  registered : List (String × Day)
  quarantined : List Subject
  anomalies : List SegmentAnomaly
  healthy : Nat
  complete : Bool
  recoverySafe : Bool

section Mutation

variable (fmt : SegmentFormat)

/-- `_cleanup_stale_reservation`; `false` is its uncertain outcome. -/
def cleanupStaleReservation (day : Day) (name : String) (snapshot : Snapshot) :
    SpoolProg Bool := do
  let path : Path := ⟨.pending, day, name⟩
  let live : Bool ← call (Γ := spoolSignature) (.binding .pending day)
  if !live then pure false
  else match (← call (Γ := spoolSignature) (.readFile path) : Except ReadFault File) with
    | .error _ => pure false
    | .ok f =>
        if failedStagingSnapshot name f ≠ some snapshot then pure false
        else
          let unlinked : Bool ← call (Γ := spoolSignature) (.unlink path)
          if !unlinked then pure false
          else
            let synced : Bool ← call (Γ := spoolSignature) (.syncDir .pending day)
            let bound : Bool ← call (Γ := spoolSignature) (.binding .pending day)
            pure (synced && bound)

/-- The staging cleanups, in order; the first uncertain one stops the pass. -/
def cleanStaging : List (Day × String × Snapshot) → SpoolProg (Option Day)
  | [] => pure none
  | (day, name, snapshot) :: rest => do
      let cleaned ← cleanupStaleReservation day name snapshot
      if cleaned then cleanStaging rest else pure (some day)

/-- The record `_register` reconstructs from the durable header. -/
def reconciledRecord {Frame : Type} (orphan : Orphan Frame) : SegmentRecord where
  batchId := orphan.batchId
  day := orphan.day
  schemaVersion := schemaVersion
  frameVersion := frameVersion
  configGeneration := orphan.parsed.header.configGeneration
  scope := orphan.parsed.header.scope
  targetId := orphan.parsed.header.targetId
  privacyClass := orphan.parsed.header.privacyClass
  retentionDays := orphan.parsed.header.retentionDays
  recordCount := orphan.parsed.header.recordCount
  contentSha256 := orphan.parsed.header.contentSha256
  byteSize := orphan.parsed.byteSize
  fileSha256 := orphan.parsed.fileSha256
  committedAt := orphan.day * dayMillis
  origin := .reconciled
  exporters := orphan.parsed.header.requiredExporters.map fun e => (e, .pending)

def reconcileFailed : SpoolError :=
  ⟨"MH_SPOOL_RECONCILE", "a reconciled orphan could not be registered"⟩

/-- The registrations, in order; the first failure raises. -/
def registerOrphans {Frame : Type} : List (Orphan Frame) → SpoolProg Bool
  | [] => pure true
  | orphan :: rest => do
      let inserted : Bool ← call (Γ := spoolSignature) (.insertSegment (reconciledRecord orphan))
      if inserted then registerOrphans rest else pure false

/-- `_delete_tombstone_fenced`: only behind a synced day directory. -/
def deleteTombstoneFenced (batchId : String) (day : Day) : SpoolProg Bool := do
  let fenced : Bool ← call (Γ := spoolSignature) (.syncDir .pending day)
  if fenced then
    let _ : Bool ← call (Γ := spoolSignature) (.deleteTombstone batchId)
    pure true
  else pure false

/-- `_complete_retirement`, with the anomaly detail it reports. -/
def completeRetirement (day : Day) (batchId expected : String) : SpoolProg (Option String) := do
  let digest ← rawSha256 fmt (segmentPath day batchId)
  if digest ≠ some expected then
    let cleared ← deleteTombstoneFenced batchId day
    pure (if cleared then none else some "uncertain")
  else match ← removeRegularFile (segmentPath day batchId) with
    | .removed => do
        let _ : Bool ← call (Γ := spoolSignature) (.deleteTombstone batchId)
        pure none
    | .failed => pure (some "io")
    | .uncertain => pure (some "uncertain")

/-- The mutations of a complete pass, after its staging cleanups. -/
def applyScan (scan : Scan fmt.Frame) : SpoolProg (Except SpoolError ReconciliationReport) := do
  let registered ← registerOrphans scan.registrations
  if !registered then pure (.error reconcileFailed)
  else
    let failures ← foldUntil scan.retirements [] fun failures r => do
      match ← completeRetirement fmt r.1 r.2.1 r.2.2 with
      | none => pure (true, failures)
      | some detail =>
          pure (true, failures ++ [⟨r.2.1, some r.1, "retirement_incomplete", detail⟩])
    let cleared := scan.tombstones.insertionSort fun a b => a.1 ≤ b.1
    let failures ← foldUntil cleared failures fun failures t => do
      let cleared ← deleteTombstoneFenced t.1 t.2
      if cleared then pure (true, failures)
      else pure (true, failures ++ [⟨t.1, some t.2, "retirement_incomplete", "uncertain"⟩])
    let result ← foldUntil scan.quarantines (([] : List Subject), failures) fun result q => do
      match ← moveToQuarantine fmt q.day q.name q.snapshot q.digest with
      | .moved => pure (true, (result.1 ++ [q], result.2))
      | .uncertain =>
          pure (true, (result.1,
            result.2 ++ [⟨q.batchId, some q.day, "quarantine_uncertain", "io"⟩]))
      | .blocked reason =>
          pure (true, (result.1,
            result.2 ++ [⟨q.batchId, some q.day, "quarantine_blocked", reason⟩]))
    pure (.ok ⟨scan.registrations.map fun o => (o.batchId, o.day), result.1,
      scan.anomalies ++ result.2, scan.healthy, true, true⟩)

def ledgerUnreadable : SpoolError :=
  ⟨"MH_SPOOL_LEDGER", "the segment ledger could not be read"⟩

def tombstonesUnreadable : SpoolError :=
  ⟨"MH_SPOOL_LEDGER", "the retirement tombstones could not be read"⟩

/-- **One reconciliation pass.** -/
def reconcilePass : SpoolProg (Except SpoolError ReconciliationReport) := do
  match (← call (Γ := spoolSignature) .readLedger : Option (List SegmentRecord)) with
  | none => pure (.error ledgerUnreadable)
  | some ledger =>
      match (← call (Γ := spoolSignature) .readRetirements :
          Option (List (String × Retirement))) with
      | none => pure (.error tombstonesUnreadable)
      | some retirements =>
          match (← call (Γ := spoolSignature) .listPending : Option (List (Day × String))) with
          | none => pure (.ok ⟨[], [], [], 0, false, true⟩)
          | some leaves =>
              let scan ← classify fmt ledger retirements leaves
              -- an exhausted anomaly budget voids the whole pass
              if maxAnomalies < scan.anomalies.length then
                pure (.ok ⟨[], [], scan.anomalies.take (maxAnomalies + 1), 0, false, true⟩)
              else
                match ← cleanStaging scan.cleanups with
                | some day =>
                    pure (.ok ⟨[], [],
                      scan.anomalies ++ [⟨"", some day, "quarantine_uncertain", "io"⟩],
                      0, true, false⟩)
                | none => applyScan fmt scan

end Mutation

end Milhouse
