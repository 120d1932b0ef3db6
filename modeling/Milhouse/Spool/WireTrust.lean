import Milhouse.Spool.WireIdentity
import Milhouse.Spool.WireRead

/-!
# Milhouse — segments as trusted state

`readTrusted` is the content part of the trusted reader: the content parses, and every record has
the identity that its installation would derive for it. With the writer it makes a segment format as
the store needs it.

* `closed_verifyIdentity` — no error of an identity leaves the reader;
* **`parse_of_build`** — what the writer builds is parsed;
* `verify_of_finalized` — what an installation finalized has the identity it derives;
* `wireFormat` — the segment format of the writer and the trusted reader.
-/

namespace Milhouse.Wire

open Json Text

section Trust

variable {P : CanonicalPlatform} (wire : WireRuntime P)

/-- `except RecordError`. -/
def isRecordError (error : Domain.DomainError) : Bool :=
  error.code = "MH_RECORD_ID_MISMATCH" || error.code = "MH_RECORD_DEDUPE_MISMATCH"

/-- `_verify_identity`. -/
def verifyIdentity (installationId : String) : List (SpoolFrameV1 P) → Except WireError Unit
  | [] => .ok ()
  | frame :: rest =>
      match Domain.verifyRecordIdentity P wire.sha256 installationId
        frame.record.toRecordEnvelopeV1 with
      | .ok () => verifyIdentity installationId rest
      | .error error =>
          if isRecordError error then
            fail "MH_SPOOL_RECORD" "a frame record identity does not match its body"
          else .error (.identity error)

/-- What `read_trusted_segment` makes of the bytes of a file that it trusts. -/
def readTrusted (installationId : String) (content : Bytes) :
    Except WireError (ParsedSegment (SpoolFrameV1 P)) := do
  if !matchesInstallationId installationId then
    fail "MH_SPOOL_IDENTITY" "a well-formed installation id is required"
  let parsed ← parseSegmentBytes wire content
  verifyIdentity wire installationId parsed.frames
  .ok parsed

theorem verifyIdentity_eq_ok_iff {installationId : String} {frames : List (SpoolFrameV1 P)} :
    verifyIdentity wire installationId frames = .ok () ↔ ∀ frame ∈ frames,
      Domain.verifyRecordIdentity P wire.sha256 installationId frame.record.toRecordEnvelopeV1 =
        .ok () := by
  induction frames with
  | nil => exact ⟨fun _ _ hmem => absurd hmem List.not_mem_nil, fun _ => rfl⟩
  | cons frame rest ih =>
      rw [List.forall_mem_cons]
      unfold verifyIdentity
      split
      · rename_i hverify
        rw [hverify]
        exact ⟨fun h => ⟨rfl, ih.mp h⟩, fun h => ih.mpr h.2⟩
      · rename_i error hverify
        rw [hverify]
        constructor
        · intro h
          split at h <;> cases h
        · intro h
          cases h.1

theorem closed_verifyIdentity {installationId : String}
    (hinstallation : matchesInstallationId installationId = true) (frames : List (SpoolFrameV1 P)) :
    Closed (verifyIdentity wire installationId frames) := by
  induction frames with
  | nil => exact closed_ok _
  | cons frame rest ih =>
      unfold verifyIdentity
      split
      · exact ih
      · rename_i error hverify
        have hrecord : isRecordError error = true := by
          unfold isRecordError
          rw [Bool.or_eq_true, decide_eq_true_eq, decide_eq_true_eq]
          exact verifyRecordIdentity_error wire.sha256 frame.record hinstallation hverify
        rw [if_pos hrecord]
        exact closed_fail _ _

end Trust

/-! ## What was built is parsed -/

section Build

variable {P : CanonicalPlatform} {wire : WireRuntime P}

/-- A line with an object in it is not blank. -/
theorem ne_blank_of_line {limits : CanonicalLimits} {ms : List (String × PyValue P.runtime.Float)}
    {line : Bytes} (hne : ms ≠ [])
    (h : (canonicalJsonBytes P.runtime limits (.dict ms)).map (· ++ [lineFeed]) = .ok line) :
    line ≠ [lineFeed] := by
  obtain ⟨bytes, hbytes, rfl⟩ := line_eq_ok h
  obtain ⟨-, rfl⟩ := canonicalJsonBytes_eq_ok_iff.mp hbytes
  intro hblank
  have hlength := congrArg List.length hblank
  rw [List.length_append, length_canonicalText_dict hne, List.length_singleton] at hlength
  omega

theorem checkLine_of_line {bound : Nat} (hpos : 0 < bound)
    {ms : List (String × PyValue P.runtime.Float)} {line : Bytes} (hne : ms ≠ [])
    (h : (canonicalJsonBytes P.runtime (lineLimits bound) (.dict ms)).map (· ++ [lineFeed]) =
      .ok line) : checkLine bound line = .ok () := by
  unfold checkLine
  rw [if_neg (ne_blank_of_line hne h), if_neg (Nat.not_lt.mpr (length_line_le hpos h))]

theorem checkLines_of_frames {frames : List (SpoolFrameV1 P)} {lines : List Bytes}
    (h : List.Forall₂ (fun frame line => spoolFrameLine frame = .ok line) frames lines) :
    checkLines lines = .ok () := by
  induction h with
  | nil => rfl
  | @cons frame line _ _ hline _ ih =>
      have hne : framePayload frame ≠ [] := List.cons_ne_nil _ _
      exact Except.bind_eq_ok_iff.mpr ⟨(), checkLine_of_line (by decide) hne hline, ih⟩

theorem parseFrames_of_lines (hshallow : wire.Shallow) {header : SegmentHeaderV1} {sequence : Nat}
    {frames : List (SpoolFrameV1 P)} {records : List (FinalizedRecord P)} {lines : List Bytes}
    (hreads : List.Forall₂ (fun frame record => Rereads wire frame.record record) frames records)
    (hlines : List.Forall₂ (fun frame line => spoolFrameLine frame = .ok line) frames lines)
    (hchecks : checkFrames header sequence frames = .ok ()) :
    parseFrames wire header sequence lines =
      .ok (List.zipWith SpoolFrameV1.withRecord frames records) := by
  induction hlines generalizing records sequence with
  | nil => rfl
  | cons hline _ ih =>
      cases hreads with
      | cons hread hreads =>
          rw [checkFrames] at hchecks
          obtain ⟨⟨⟩, hcheck, hchecks⟩ := Except.bind_eq_ok_iff.mp hchecks
          rw [parseFrames]
          refine Except.bind_eq_ok_iff.mpr ⟨_, parseFrame_of_line hshallow hread hline hcheck, ?_⟩
          exact Except.bind_eq_ok_iff.mpr ⟨_, ih hreads hchecks, rfl⟩

/-- **What the writer builds is parsed**, each frame around the record that its validators read. -/
theorem parse_of_build (hshallow : wire.Shallow) {header : SegmentHeaderV1}
    {frames : List (SpoolFrameV1 P)} {records : List (FinalizedRecord P)} {content : Bytes}
    (hreads : List.Forall₂ (fun frame record => Rereads wire frame.record record) frames records)
    (hbuild : buildSegmentBytes wire header frames = .ok content) :
    parseSegmentBytes wire content = .ok ⟨header, List.zipWith SpoolFrameV1.withRecord frames records,
      content.length, wire.hexdigest content⟩ := by
  obtain ⟨headerLine, frameLines, hheader, hlines, rfl, hsize, hadmitted, hcount, hchecks, hdigest⟩ :=
    buildSegmentBytes_ok hbuild
  have hsplit : splitLines (headerLine ++ frameLines.flatten) = .ok (headerLine, frameLines) := by
    unfold splitLines
    rw [if_neg (Nat.not_lt.mpr hsize), cut_segment hheader hlines]
    refine Except.bind_eq_ok_iff.mpr
      ⟨(), checkLine_of_line (by decide) (headerPayload_ne_nil header) hheader, ?_⟩
    exact Except.bind_eq_ok_iff.mpr ⟨(), checkLines_of_frames hlines, rfl⟩
  have hlength : (List.zipWith SpoolFrameV1.withRecord frames records).length = frames.length := by
    rw [List.length_zipWith, hreads.length_eq, Nat.min_self]
  unfold parseSegmentBytes
  refine Except.bind_eq_ok_iff.mpr ⟨_, hsplit, ?_⟩
  dsimp only
  rw [if_neg (Nat.not_lt.mpr (hlines.length_eq ▸ hadmitted))]
  refine Except.bind_eq_ok_iff.mpr ⟨header, parseHeader_of_line hshallow hheader, ?_⟩
  refine Except.bind_eq_ok_iff.mpr ⟨_, parseFrames_of_lines hshallow hreads hlines hchecks, ?_⟩
  rw [hlength, if_neg (fun hne => hne hcount.symm), if_neg (fun hne => hne hdigest)]

/-- Frames around records that are written alike have the same identities. -/
theorem verify_withRecord {installationId : String}
    (hinstallation : matchesInstallationId installationId = true)
    {frames : List (SpoolFrameV1 P)} {records : List (FinalizedRecord P)}
    (hreads : List.Forall₂ (fun frame record => Rereads wire frame.record record) frames records)
    (hverify : ∀ frame ∈ frames, Domain.verifyRecordIdentity P wire.sha256 installationId
      frame.record.toRecordEnvelopeV1 = .ok ()) :
    ∀ frame ∈ List.zipWith SpoolFrameV1.withRecord frames records,
      Domain.verifyRecordIdentity P wire.sha256 installationId frame.record.toRecordEnvelopeV1 =
        .ok () := by
  induction hreads with
  | nil => exact fun _ hmem => absurd hmem List.not_mem_nil
  | cons hread _ ih =>
      rw [List.forall_mem_cons] at hverify
      rw [List.zipWith_cons_cons, List.forall_mem_cons]
      exact ⟨hread.same.verify hinstallation hverify.1, ih hverify.2⟩

/-- What was finalized has its identity. -/
theorem verify_of_finalized {sha256 : Bytes → Bytes} {installationId : String}
    {record : Domain.RecordEnvelopeV1 P}
    (h : Domain.finalizeRecord P sha256 installationId record.draft = .ok record) :
    Domain.verifyRecordIdentity P sha256 installationId record = .ok () := by
  obtain ⟨hrecordId, hdedupeKey, -⟩ := Domain.finalizeRecord_ok h
  exact (verifyRecordIdentity_eq_ok_iff sha256).mpr ⟨hrecordId, hdedupeKey⟩

/-- **The trusted reader gives back what the writer built** of verified frames: the header, and the
frames around the records that their validators read. -/
theorem readTrusted_of_build (hshallow : wire.Shallow) {installationId : String}
    (hinstallation : matchesInstallationId installationId = true) {header : SegmentHeaderV1}
    {frames : List (SpoolFrameV1 P)} {records : List (FinalizedRecord P)} {content : Bytes}
    (hreads : List.Forall₂ (fun frame record => Rereads wire frame.record record) frames records)
    (hverify : ∀ frame ∈ frames, Domain.verifyRecordIdentity P wire.sha256 installationId
      frame.record.toRecordEnvelopeV1 = .ok ())
    (hbuild : buildSegmentBytes wire header frames = .ok content) :
    readTrusted wire installationId content = .ok ⟨header,
      List.zipWith SpoolFrameV1.withRecord frames records, content.length,
      wire.hexdigest content⟩ := by
  have hverified := verify_withRecord hinstallation hreads hverify
  unfold readTrusted
  rw [hinstallation, Bool.not_true, if_neg Bool.false_ne_true]
  refine Except.bind_eq_ok_iff.mpr ⟨_, parse_of_build hshallow hreads hbuild, ?_⟩
  exact Except.bind_eq_ok_iff.mpr ⟨(), (verifyIdentity_eq_ok_iff wire).mpr hverified, rfl⟩

theorem readTrusted_ok {installationId : String} {content : Bytes}
    {segment : ParsedSegment (SpoolFrameV1 P)}
    (h : readTrusted wire installationId content = .ok segment) :
    matchesInstallationId installationId = true ∧
      parseSegmentBytes wire content = .ok segment ∧
      verifyIdentity wire installationId segment.frames = .ok () := by
  unfold readTrusted at h
  obtain ⟨hinstallation, h⟩ := passed_check h
  obtain ⟨parsed, hparsed, h⟩ := Except.bind_eq_ok_iff.mp h
  obtain ⟨⟨⟩, hverify, h⟩ := Except.bind_eq_ok_iff.mp h
  obtain rfl := Except.ok.inj h
  exact ⟨by simpa using hinstallation, hparsed, hverify⟩

end Build

/-! ## The format of the store -/

/-- What the store sees of a failure. -/
def settled {α : Type} : Except WireError α → Except SpoolError α
  | .ok a => .ok a
  | .error (.spool error) => .error error
  | .error (.canonicalization error) => .error ⟨error.code, error.message⟩
  | .error (.identity error) => .error ⟨error.code, error.message⟩

theorem settled_eq_ok_iff {α : Type} {x : Except WireError α} {a : α} :
    settled x = .ok a ↔ x = .ok a := by
  cases x with
  | ok b => exact ⟨fun h => congrArg _ (Except.ok.inj h), fun h => congrArg _ (Except.ok.inj h)⟩
  | error error => cases error <;> exact ⟨fun h => (by cases h), fun h => (by cases h)⟩

section Format

variable {P : CanonicalPlatform} (wire : WireRuntime P) (installationId : String)

theorem expiries_of_same {frames frames' : List (SpoolFrameV1 P)}
    (h : List.Forall₂ SameFrame frames frames') :
    frames.map (fun f => f.record.expiresAt) = frames'.map (fun f => f.record.expiresAt) := by
  induction h with
  | nil => rfl
  | cons hsame _ ih => rw [List.map_cons, List.map_cons, hsame.record.expiresAt, ih]

/-- **The segment format of the writer and the trusted reader.** -/
def wireFormat : SegmentFormat where
  Frame := SpoolFrameV1 P
  batchId frame := frame.batchId
  expiresAt frame := frame.record.expiresAt
  line frame := (spoolFrameLine frame).toOption.getD []
  sha256 := wire.hexdigest
  contentSha256 := spoolContentSha256 wire
  build header frames := settled (buildSegmentBytes wire header frames)
  read content := settled (readTrusted wire installationId content)
  read_size h := by
    obtain ⟨-, hparse, -⟩ := readTrusted_ok (settled_eq_ok_iff.mp h)
    exact (build_of_parse wire hparse).2
  read_build hbuild hread := by
    obtain ⟨-, hparse, -⟩ := readTrusted_ok (settled_eq_ok_iff.mp hread)
    obtain ⟨hheader, hframes⟩ := same_of_build (build_of_parse wire hparse).1
      (settled_eq_ok_iff.mp hbuild)
    exact ⟨hheader, expiries_of_same hframes⟩
  build_nonempty h := by
    obtain ⟨headerLine, frameLines, hheader, -, rfl, -⟩ :=
      buildSegmentBytes_ok (settled_eq_ok_iff.mp h)
    exact List.append_ne_nil_of_left_ne_nil (isLine_of_canonicalJsonBytes hheader).ne_nil _

end Format

end Milhouse.Wire
