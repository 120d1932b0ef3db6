import Milhouse.Spool.Interference
import Milhouse.Spool.Reconcile

/-!
# Milhouse — delivering a segment to its exporters

`deliverSegment` is `deliver_segment`: under one shared hold of the commit barrier it reloads the
row, requires the supplied record and frames to be that row's, withholds a segment with an expired
record, and then hands the frames to each exporter not yet delivered and records the outcome in one
compare-and-set. Any number of these run at the same time.
-/

namespace Milhouse

open Interaction Interaction.Prog

/-- What a frame shows of itself to an exporter. -/
def SegmentFormat.handed (fmt : SegmentFormat) (f : fmt.Frame) : HandedFrame :=
  ⟨fmt.batchId f, fmt.line f, fmt.expiresAt f⟩

structure ExporterAttempt where
  batchId : String
  exporterId : String
  outcome : AttemptOutcome
  deriving DecidableEq, Repr

def exportError (message : String) : SpoolError := ⟨"MH_SPOOL_EXPORT", message⟩

section Checks

variable (fmt : SegmentFormat)

/-- The supplied record is the reloaded one: `_reload_record`. -/
def sameRecord (live record : SegmentRecord) : Bool :=
  live.contentSha256 = record.contentSha256 && live.fileSha256 = record.fileSha256
    && live.recordCount = record.recordCount && live.byteSize = record.byteSize

/-- `_require_frames_belong`. -/
def requireFramesBelong (record : SegmentRecord) (frames : List fmt.Frame) :
    Except SpoolError Unit :=
  if frames.length ≠ record.recordCount then
    .error (exportError "the frame count does not match the segment")
  else if frames.any fun f => fmt.batchId f ≠ record.batchId then
    .error (exportError "a frame does not belong to the segment")
  else if fmt.contentSha256 (frames.map fmt.line) ≠ record.contentSha256 then
    .error (exportError "the frames do not match the segment content digest")
  else .ok ()

/-- `_segment_is_expired`: the earliest expiry has been reached. -/
def segmentIsExpired (frames : List fmt.Frame) (now : Stamp) : Bool :=
  match (frames.map fmt.expiresAt).min? with
  | none => false
  | some earliest => earliest ≤ now

/-- The exporters by key, each with the id it reports of itself; `none` is a property that raises. -/
abbrev Exporters := Table String (Option String)

/-- The registered object is the exporter of the row. -/
def knows (exporters : Exporters) (exporterId : String) : Bool :=
  match exporters.lookup exporterId with
  | none => false
  | some reported => matchesExporterId exporterId && reported = some exporterId

end Checks

section Delivery

variable (fmt : SegmentFormat)

/-- One exporter row: skip it, or hand the frames over and record what came of it. -/
def attemptRow (live : SegmentRecord) (frames : List fmt.Frame) (exporters : Exporters)
    (now : Stamp) (row : String × DeliveryStatus) :
    SpoolProg (Except SpoolError AttemptOutcome) := do
  if row.2 = .delivered then pure (.ok .alreadyDelivered)
  else if !knows exporters row.1 then pure (.ok .noExporter)
  else
    let returned : Bool ←
      call (Γ := spoolSignature) (.export live row.1 (frames.map fmt.handed) now)
    match (← call (Γ := spoolSignature) (.advanceStatus live.batchId row.1
        (if returned then .delivered else .failed)) : Option CasResult) with
    | none => pure (.error (exportError "the exporter delivery status could not be recorded"))
    | some result =>
        if returned then
          match result with
          | .advanced => pure (.ok .delivered)
          | .already => pure (.ok .alreadyDelivered)
          | .gone => pure (.ok .segmentGone)
        else pure (.ok .failed)

/-- The rows in order; each attempt is noted as it is reported. -/
def attemptRows (live : SegmentRecord) (frames : List fmt.Frame) (exporters : Exporters)
    (now : Stamp) : List (String × DeliveryStatus) → List ExporterAttempt →
    SpoolProg (Except SpoolError (List ExporterAttempt))
  | [], attempts => pure (.ok attempts)
  | row :: rest, attempts => do
      match ← attemptRow fmt live frames exporters now row with
      | .error e => pure (.error e)
      | .ok outcome =>
          call (Γ := spoolSignature) (.note (.attempted live row.1 now outcome))
          attemptRows live frames exporters now rest
            (attempts ++ [⟨live.batchId, row.1, outcome⟩])

/-- `deliver_segment`, under the shared barrier. -/
def deliverSegment (record : SegmentRecord) (frames : List fmt.Frame) (exporters : Exporters)
    (now : Stamp) : SpoolProg (Except SpoolError (List ExporterAttempt)) := do
  match (← call (Γ := spoolSignature) (.readRecord record.batchId) :
      Option (Option SegmentRecord)) with
  | none => pure (.error ledgerUnreadable)
  | some none => pure (.error (exportError "the segment is not committed"))
  | some (some live) =>
      if !sameRecord live record then
        pure (.error (exportError "the supplied record does not match the committed segment"))
      else match requireFramesBelong fmt live frames with
        | .error e => pure (.error e)
        | .ok () =>
            if segmentIsExpired fmt frames now then
              pure (.ok (live.exporters.map fun row => ⟨live.batchId, row.1,
                if row.2 = .delivered then .alreadyDelivered else .expired⟩))
            else attemptRows fmt live frames exporters now live.exporters []

end Delivery

/-! ## A delivery changes nothing but delivery statuses -/

section Only

variable {fmt : SegmentFormat} {live record : SegmentRecord} {frames : List fmt.Frame}
  {exporters : Exporters} {now : Stamp}

theorem attemptRow_only {row : String × DeliveryStatus} :
    (attemptRow fmt live frames exporters now row).Only SpoolOp.delivers := by
  unfold attemptRow
  split
  · trivial
  · split
    · trivial
    · refine .call trivial fun returned => .call trivial fun result => ?_
      rcases result with _ | (_ | _ | _) <;> cases returned <;> trivial

theorem attemptRows_only {rows : List (String × DeliveryStatus)}
    {attempts : List ExporterAttempt} :
    (attemptRows fmt live frames exporters now rows attempts).Only SpoolOp.delivers := by
  induction rows generalizing attempts with
  | nil => trivial
  | cons row rest ih =>
      unfold attemptRows
      refine attemptRow_only.bind fun outcome => ?_
      cases outcome with
      | error e => trivial
      | ok outcome => exact .call trivial fun _ => ih

/-- **A delivery performs nothing but the operations of a delivery.** -/
theorem deliverSegment_only :
    (deliverSegment fmt record frames exporters now).Only SpoolOp.delivers := by
  unfold deliverSegment
  refine .call trivial fun found => ?_
  rcases found with _ | _ | live
  · trivial
  · trivial
  · dsimp only
    split
    · trivial
    · split
      · trivial
      · split
        · trivial
        · exact attemptRows_only

end Only

end Milhouse
