import Milhouse.Spool.VerifyAgreement
import Milhouse.Spool.WireTrust

/-!
# Milhouse — the wire under the replay and the audit

The replay and the audit are stated over any format whose reader has checked the frames it returns
(`CheckedFormat`, `CountedFormat`). The trusted reader is one: `parseFrames` compares the batch id of
every frame with the header, and `parseSegmentBytes` the number of the frames and the digest of their
lines. So what is proved over these formats holds of the bytes that `buildSegmentBytes` writes.

* **`countedWireFormat`** — the writer and the trusted reader as such a format;
* `StoredSegment` — the file of a row holds what the writer built of verified frames;
* **`StoredSegment.intact`**, **`StoredSegment.passes`** — it passes every check of its file against
  its row;
* **`replays_stored`** — a pass over such files returns, with the ids of the records in them.
-/

namespace Milhouse.Wire

open Interaction

section Laws

variable {P : CanonicalPlatform} {wire : WireRuntime P}

/-- Frames past the check of their header carry its batch id. -/
theorem batchId_of_checkFrames {header : SegmentHeaderV1} {index : Nat}
    {frames : List (SpoolFrameV1 P)} (h : checkFrames header index frames = .ok ()) :
    ∀ frame ∈ frames, frame.batchId = header.batchId := by
  induction frames generalizing index with
  | nil => exact fun _ hmem => absurd hmem List.not_mem_nil
  | cons frame rest ih =>
      obtain ⟨⟨⟩, hframe, hrest⟩ := Except.bind_eq_ok_iff.mp h
      refine List.forall_mem_cons.mpr ⟨?_, ih hrest⟩
      -- the sequence is compared first, then the batch id
      obtain ⟨-, hframe⟩ := passed_last hframe
      obtain ⟨hbatch, -⟩ := passed_last hframe
      exact Decidable.not_not.mp hbatch

/-- The line of a frame, where it is encoded. -/
theorem map_line {frames : List (SpoolFrameV1 P)} {lines : List Bytes}
    (h : List.Forall₂ (fun frame line => spoolFrameLine frame = .ok line) frames lines) :
    frames.map (fun frame => (spoolFrameLine frame).toOption.getD []) = lines := by
  induction h with
  | nil => rfl
  | cons hline _ ih => rw [List.map_cons, hline, ih]; rfl

/-- **What the trusted reader has checked**: the frames carry the batch id of the header, there are as
many as it counts, and their lines have its digest. -/
theorem readTrusted_checked {installationId : String} {content : Bytes}
    {segment : ParsedSegment (SpoolFrameV1 P)}
    (h : readTrusted wire installationId content = .ok segment) :
    (∀ frame ∈ segment.frames, frame.batchId = segment.header.batchId) ∧
      segment.frames.length = segment.header.recordCount ∧
      spoolContentSha256 wire
        (segment.frames.map fun frame => (spoolFrameLine frame).toOption.getD []) =
          segment.header.contentSha256 := by
  obtain ⟨-, hparse, -⟩ := readTrusted_ok h
  obtain ⟨headerLine, frameLines, -, -, hframes, -, hcount, hdigest, -⟩ := parseSegmentBytes_ok wire hparse
  obtain ⟨hlines, hchecks⟩ := parseFrames_ok wire hframes
  exact ⟨batchId_of_checkFrames hchecks, hcount, map_line hlines ▸ hdigest⟩

end Laws

section Format

variable {P : CanonicalPlatform} (wire : WireRuntime P) (installationId : String)

/-- The segment format of the wire, with the record ids and what its reader has checked. -/
def checkedWireFormat : CheckedFormat where
  toSegmentFormat := wireFormat wire installationId
  recordId frame := frame.record.recordId
  read_batch h := (readTrusted_checked (settled_eq_ok_iff.mp h)).1
  read_content h := (readTrusted_checked (settled_eq_ok_iff.mp h)).2.2

/-- **The segment format of the wire**, as the replay, the preview and the audit take it. -/
def countedWireFormat : Verify.CountedFormat where
  toCheckedFormat := checkedWireFormat wire installationId
  read_count h := (readTrusted_checked (settled_eq_ok_iff.mp h)).2.1

/-- The file of a record is private and holds what the writer built of frames that the installation
verifies and whose records are read back; the record is the one its commit inserted. -/
structure StoredSegment (s : SpoolState) (record : SegmentRecord) (frames : List (SpoolFrameV1 P)) :
    Prop where
  verified : ∀ frame ∈ frames, Domain.verifyRecordIdentity P wire.sha256 installationId
    frame.record.toRecordEnvelopeV1 = .ok ()
  reread : ∃ records,
    List.Forall₂ (fun frame record => Rereads wire frame.record record) frames records
  file : ∃ header content inode, buildSegmentBytes wire header frames = .ok content ∧
    s.stat (segmentPath record.day record.batchId) = some ⟨content, inode, .private⟩ ∧
    record.batchId = header.batchId ∧
    record.toSegmentRow = (committedRecord (wireFormat wire installationId) header content
      record.committedAt).toSegmentRow ∧
    ∀ e, e ∈ record.exporters.map (·.1) ↔ e ∈ header.requiredExporters

end Format

section Stored

variable {P : CanonicalPlatform} {wire : WireRuntime P} {installationId : String}
variable {s : SpoolState} {record : SegmentRecord} {frames : List (SpoolFrameV1 P)}

/-- Records that are read back keep their ids. -/
theorem recordIds_of_reread {records : List (FinalizedRecord P)}
    (h : List.Forall₂ (fun frame record => Rereads wire frame.record record) frames records) :
    (List.zipWith SpoolFrameV1.withRecord frames records).map (fun frame => frame.record.recordId) =
      frames.map fun frame => frame.record.recordId := by
  induction h with
  | nil => rfl
  | cons hread _ ih =>
      rw [List.zipWith_cons_cons, List.map_cons, List.map_cons, ih]
      exact congrArg (· :: _) hread.same.recordId.symm

/-- **The trusted read of a stored segment**: its frames, under the header that agrees with the row. -/
theorem StoredSegment.read (hshallow : wire.Shallow)
    (hinstallation : matchesInstallationId installationId = true)
    (h : StoredSegment wire installationId s record frames) :
    ∃ parsed : ParsedSegment (SpoolFrameV1 P), ∃ content inode,
      s.stat (segmentPath record.day record.batchId) = some ⟨content, inode, .private⟩ ∧
        content.length ≤ maxSegmentFileBytes ∧
        (wireFormat wire installationId).read content = .ok parsed ∧
        agrees parsed record.day record.batchId record = true ∧
        parsed.frames.map (fun frame => frame.record.recordId) =
          frames.map fun frame => frame.record.recordId := by
  obtain ⟨records, hreads⟩ := h.reread
  obtain ⟨header, content, inode, hbuild, hstat, hbatch, hrow, hexporters⟩ := h.file
  have hread := readTrusted_of_build hshallow hinstallation hreads h.verified hbuild
  obtain ⟨-, -, -, -, -, hsize, -⟩ := buildSegmentBytes_ok hbuild
  refine ⟨_, content, inode, hstat, hsize, settled_eq_ok_iff.mpr hread, ?_,
    recordIds_of_reread hreads⟩
  -- each column of the row is the field of the header, or was computed from the content
  have hcolumns := SegmentRow.mk.inj hrow
  obtain ⟨-, hschema, hframe, hconfig, hscope, htarget, hprivacy, hdays, hcount, hdigest, hbytes,
    hfile, -, -⟩ := hcolumns
  unfold agrees
  simp only [Bool.and_eq_true, decide_eq_true_eq, List.all_eq_true]
  refine ⟨⟨⟨⟨⟨⟨⟨⟨⟨⟨⟨⟨⟨⟨⟨hbatch.symm, trivial⟩, trivial⟩, hschema⟩, hframe⟩, hconfig.symm⟩, hscope.symm⟩,
    htarget.symm⟩, hprivacy.symm⟩, hdays.symm⟩, hcount.symm⟩, hdigest.symm⟩, hbytes.symm⟩,
    hfile.symm⟩, fun e he => (hexporters e).mpr he⟩, fun e he => ?_⟩
  exact (hexporters e.1).mp (List.mem_map_of_mem he)

/-- **A stored segment is intact**, and its frames have the ids its records were given. -/
theorem StoredSegment.intact (hshallow : wire.Shallow)
    (hinstallation : matchesInstallationId installationId = true)
    (h : StoredSegment wire installationId s record frames) :
    Intact (checkedWireFormat wire installationId) s record ∧
      (segmentFrames (checkedWireFormat wire installationId) s record).map
        (checkedWireFormat wire installationId).recordId =
          frames.map fun frame => frame.record.recordId := by
  obtain ⟨parsed, content, inode, hstat, hsize, hread, hagrees, hids⟩ := h.read hshallow hinstallation
  have hcounted := (countedWireFormat wire installationId).read_count hread
  obtain ⟨⟨hbatch, -, -⟩, hcount, hdigest, hbytes, hfile⟩ := Verify.agrees_true hagrees
  constructor
  · refine ⟨⟨content, inode, .private⟩, parsed, hstat, rfl, hsize, hread, hbatch, ?_⟩
    exact verifyAgainstLedger_eq_ok_iff.mpr ⟨hfile, hbytes, hdigest, hcounted.trans hcount⟩
  · have hframes : segmentFrames (checkedWireFormat wire installationId) s record =
        parsed.frames := by
      unfold segmentFrames
      have hchecked : (checkedWireFormat wire installationId).read content = .ok parsed := hread
      rw [hstat]
      dsimp only
      rw [hchecked]
    rw [hframes]
    exact hids

/-- **The audit passes a stored segment**, where its directories are private, and with it the replay and
the retention preview do. -/
theorem StoredSegment.passes (hshallow : wire.Shallow)
    (hinstallation : matchesInstallationId installationId = true) {t : Verify.RestingSpool}
    (hopens : t.pending.opens = true) (hday : t.days record.day = .private)
    (h : StoredSegment wire installationId t.store record frames) :
    Verify.verifySegment (wireFormat wire installationId) t record = none ∧
      Verify.PassesEverywhere (countedWireFormat wire installationId) t record := by
  obtain ⟨parsed, content, inode, hstat, hsize, hread, hagrees, -⟩ := h.read hshallow hinstallation
  have haccepts : Verify.accepts (wireFormat wire installationId) t.store (Verify.named record)
      record = true := by
    have htrusted : Retention.trustedSegment (wireFormat wire installationId) t.store
        (segmentPath record.day record.batchId) = .ok parsed := by
      unfold Retention.trustedSegment
      rw [hstat]
      dsimp only
      rw [if_neg (by decide), if_neg (not_not.mpr rfl), if_neg (Nat.not_lt.mpr hsize), hread]
    have hpath : (Verify.named record).path = segmentPath record.day record.batchId := rfl
    unfold Verify.accepts
    rw [hpath, htrusted]
    exact hagrees
  have hverify : Verify.verifySegment (wireFormat wire installationId) t record = none :=
    Verify.verifySegment_none.mpr ⟨haccepts, hopens, hday⟩
  exact ⟨hverify, Verify.verified_everywhere hverify⟩

/-- **A pass over stored segments returns**, whatever the exporters do, and reports the ids that the
records were finalized with, segment by segment. -/
theorem replays_stored (hshallow : wire.Shallow)
    (hinstallation : matchesInstallationId installationId = true)
    {framesOf : SegmentRecord → List (SpoolFrameV1 P)}
    (h : ∀ record ∈ s.ledger.records, StoredSegment wire installationId s record (framesOf record))
    (pass : Pass) :
    ∃ report t, pass.run (checkedWireFormat wire installationId) s = some (.ok report, t) ∧
      ReplayOutcome (checkedWireFormat wire installationId) pass s s t report ∧
      report.recordIds = s.ledger.records.flatMap fun record =>
        (framesOf record).map fun frame => frame.record.recordId := by
  have hintact := fun record hrecord => (h record hrecord).intact hshallow hinstallation
  obtain ⟨report, t, hrun, houtcome⟩ := run_replaySegments
    (fun record hrecord => (hintact record hrecord).1) (Faithful.refl s) pass
  refine ⟨report, t, hrun, houtcome, houtcome.recordIds.trans ?_⟩
  rw [List.flatMap_def, List.flatMap_def]
  exact congrArg _ (List.map_congr_left fun record hrecord => (hintact record hrecord).2)

end Stored

end Milhouse.Wire
