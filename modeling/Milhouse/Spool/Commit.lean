import Milhouse.Spool.Reconcile

/-!
# Milhouse — committing a segment and applying retention

`commitSegment` is `DurableSpool.commit_segment`: mandatory reconciliation, then publication, then
the ledger row. `retentionApply` prunes every fully expired segment: the row goes first, together
with a tombstone that carries the digest of the file, and the file after it. Both run under the
exclusive side of the commit barrier (a commit keeps it, downgraded, until its row is in).
-/

namespace Milhouse

open Interaction Interaction.Prog

variable (fmt : SegmentFormat)

/-! ## Commit -/

/-- The record `commit_segment` writes for a header, its bytes and the commit stamp. -/
def committedRecord (header : SegmentHeaderV1) (content : Bytes) (stamp : Stamp) :
    SegmentRecord where
  batchId := header.batchId
  day := stamp.day
  schemaVersion := schemaVersion
  frameVersion := frameVersion
  configGeneration := header.configGeneration
  scope := header.scope
  targetId := header.targetId
  privacyClass := header.privacyClass
  retentionDays := header.retentionDays
  recordCount := header.recordCount
  contentSha256 := header.contentSha256
  byteSize := content.length
  fileSha256 := fmt.sha256 content
  committedAt := stamp
  origin := .committed
  exporters := header.requiredExporters.map fun e => (e, .pending)

def egressDenied : SpoolError :=
  ⟨"MH_SPOOL_EGRESS", "the local persistence surfaces do not authorize this privacy class"⟩

def spoolIncomplete : SpoolError :=
  ⟨"MH_SPOOL_INCOMPLETE", "reconciliation was truncated by a scan bound"⟩

def recoveryUnverified : SpoolError :=
  ⟨"MH_SPOOL_RECOVERY", "reconciliation recovery could not be verified"⟩

def barrierNotAcquired : SpoolError :=
  ⟨"MH_SPOOL_BARRIER", "the commit barrier could not be acquired"⟩

def dirNotCreated : SpoolError :=
  ⟨"MH_SPOOL_DIR", "a spool directory could not be created"⟩

def segmentExists : SpoolError := ⟨"MH_SPOOL_EXISTS", "a segment already exists at that name"⟩

def segmentNotPublished : SpoolError :=
  ⟨"MH_SPOOL_WRITE", "the segment could not be durably published"⟩

def ledgerNotCommitted : SpoolError :=
  ⟨"MH_SPOOL_COMMIT", "the segment ledger could not be committed"⟩

/-- `_publish_and_record`: the writer action after a complete and safe pass, with the notes that a
publication returned and that the record was acknowledged. -/
def publishAndRecord (record : SegmentRecord) (content : Bytes) :
    SpoolProg (Except SpoolError SegmentRecord) := do
  let opened : Bool ← call (Γ := spoolSignature) (.ensureDir .pending record.day true)
  if !opened then pure (.error dirNotCreated)
  else match ← publishSegmentBytes (segmentPath record.day record.batchId) content with
    | .exists => pure (.error segmentExists)
    | .failed => pure (.error segmentNotPublished)
    | .published =>
        call (Γ := spoolSignature) (.note (.published (segmentPath record.day record.batchId) content))
        let inserted : Bool ← call (Γ := spoolSignature) (.insertSegment record)
        if inserted then
          call (Γ := spoolSignature) (.note (.acknowledged record content))
          pure (.ok record)
        else pure (.error ledgerNotCommitted)

/-- `commit_segment`. -/
def commitSegment (header : SegmentHeaderV1) (frames : List fmt.Frame) (stamp : Stamp) :
    SpoolProg (Except SpoolError SegmentRecord) :=
  if !authorizeLocalPersistence header.privacyClass then pure (.error egressDenied)
  else match fmt.build header frames with
    | .error e => pure (.error e)
    | .ok content => do
        match ← reconcilePass fmt with
        | .error e => pure (.error e)
        | .ok report =>
            if !report.complete then pure (.error spoolIncomplete)
            else if !report.recoverySafe then pure (.error recoveryUnverified)
            else
              let shared : Bool ← call (Γ := spoolSignature) .share
              if !shared then pure (.error barrierNotAcquired)
              else publishAndRecord (committedRecord fmt header content stamp) content

/-! ## Retention -/

/-- What `_apply_one` reports of one segment. -/
inductive Retained where
  | pruned (outcome : RemoveOutcome)
  | skipped (status : String)
  deriving DecidableEq, Repr

/-- Every record of the segment is past its expiry, and there is one. -/
def fullyExpired (parsed : ParsedSegment fmt.Frame) (now : Stamp) : Bool :=
  !parsed.frames.isEmpty && parsed.frames.all fun f => fmt.expiresAt f ≤ now

/-- `_prune_segment`: the ledger first, then the file, then the tombstone. -/
def pruneSegment (record : SegmentRecord) (now : Stamp) : SpoolProg Retained := do
  let deleted : Bool ← call (Γ := spoolSignature) (.pruneSegment record now)
  if !deleted then pure (.skipped "fully_expired")
  else match ← removeRegularFile (segmentPath record.day record.batchId) with
    | .removed => do
        let _ : Bool ← call (Γ := spoolSignature) (.deleteTombstone record.batchId)
        pure (.pruned .removed)
    | outcome => pure (.pruned outcome)

/-- `_apply_one`. -/
def applyOne (record : SegmentRecord) (now : Stamp) : SpoolProg Retained := do
  match ← readTrustedSegment fmt (segmentPath record.day record.batchId) false with
  | .error _ => pure (.skipped "unreadable")
  | .ok parsed =>
      if !agrees parsed record.day record.batchId record then pure (.skipped "disagreeing")
      else if !fullyExpired fmt parsed now then pure (.skipped "live")
      else pruneSegment record now

/-- `retention_apply`, under the exclusive barrier. -/
def retentionApply (now : Stamp) : SpoolProg (Except SpoolError (List Retained)) := do
  match (← call (Γ := spoolSignature) .readLedger : Option (List SegmentRecord)) with
  | none => pure (.error ledgerUnreadable)
  | some records =>
      let results ← foldUntil records [] fun results record => do
        pure (true, results ++ [← applyOne fmt record now])
      pure (.ok results)

end Milhouse
