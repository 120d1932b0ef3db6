import Milhouse.Spool.WireTrust

/-!
# Milhouse — segments there and back

What the writer of segments and their two readers promise each other, for every content and every
platform.

* **`buildSegmentBytes_eq_iff`** — two segments have the same bytes exactly where they agree;
* **`parseSegmentBytes_sound`** — what the reader accepts is what the writer builds from it;
* **`parseSegmentBytes_prefix`** — a segment that lost its end is not accepted;
* **`segmentParser_sound`** — the reader gives an error of the spool, or what the content spells, line
  by line;
* **`readTrusted_total`** — the trusted reader fails with errors of the spool only;
* **`readTrusted_of_finalized`** — a segment of records that an installation finalized is its trusted
  state;
* **`readTrusted_installation`** — and that of no other installation.
-/

namespace Milhouse.Wire

open Json Text

/-! ## Sample segments

One event that an installation finalized, in a segment of its own and in one that has it twice. -/

def sampleRecord : Domain.RecordEnvelopeV1 samplePlatform where
  draft := Domain.sampleDraft
  recordId := "mh_cvi2dilfwwfhcirvas6vs4yvwjc6e5anmctpptn5kq6xw2wq7jja"
  dedupeKey := "mh_d1_k5647sazf56eorh7en2ex4vg5xbjolrxw2ktpbutupz6cqdqhiha"
  contentHash := "372e9cd7e602f614b06258aab55d00b82a56a12cc9b453670f8ea13ebc2a1d31"

/-- The sample record has the shape the wire expects of a record. -/
theorem sampleRecord_shaped : recordShape.Conforms
    (Domain.dump (Domain.envelopeFields samplePlatform) sampleRecord) := by
  have hsource : sourceShape.Conforms
      (Domain.dump (Domain.sourceFields samplePlatform) Domain.sampleDraft.source) := by
    refine .model (.take (.scalar rfl) (.take (.scalar rfl) (.take (.scalar rfl) (.take (.scalar rfl)
      (.take (.scalar rfl) (.take (.model ?_) .nil))))))
    exact .take (.scalar rfl) (.take (.dict (by decide) (by decide)) .nil)
  have hcollector : collectorShape.Conforms
      (Domain.dump (Domain.collectorFields samplePlatform) ⟨"ci", "github", "1.2"⟩) :=
    .model (.take (.scalar rfl) (.take (.scalar rfl) (.take (.scalar rfl) (.take (.scalar rfl) .nil))))
  have hcorrelation : correlationShape.Conforms (Domain.dump
      (Domain.correlationFields samplePlatform) Domain.sampleDraft.correlation) :=
    .model (.skip (.skip (.skip (.skip .nil))))
  refine .model (.take (.scalar rfl) (.take (.scalar rfl) (.take (.scalar rfl) (.take (.scalar rfl)
    (.take (.scalar rfl) (.take (.scalar rfl) (.take (.scalar rfl) (.skip (.skip (.take (.scalar rfl)
    (.take (.scalar rfl) (.take (.scalar rfl) (.take hsource (.take hcollector (.skip ?_)))))))))))))))
  refine .take (.scalar rfl) (.take (.scalar rfl) (.take (.scalar rfl) (.take (.scalar rfl)
    (.take hcorrelation (.take (.dict (by decide) (by decide)) (.take Domain.sampleEvent_conforms ?_))))))
  exact .take (.scalar rfl) (.take (.scalar rfl) (.take (.scalar rfl) .nil))

def sampleFinalized : FinalizedRecord samplePlatform where
  toRecordEnvelopeV1 := sampleRecord
  recordId_valid := by decide +kernel
  dedupeKey_valid := by decide +kernel
  shaped := sampleRecord_shaped
  canonical := Except.exists_eq_ok (by decide +kernel)
  expiresAt_valid := by decide +kernel

def sampleFrame : SpoolFrameV1 samplePlatform where
  batchId := "b1"
  sequence := 1
  record := sampleFinalized
  validBatchId := by decide
  validSequence := by decide

/-- The header of a segment with the sample frame. -/
def sampleFrameHeader : SegmentHeaderV1 where
  toHeaderFields := { sampleHeader.toHeaderFields with
    contentSha256 := "749dabb557b21d4b0a12bb760b3325f3580d9a2f88d6833446e14f1a3cb25145" }
  valid := by decide +kernel

/-- The event in a further frame. -/
def nextFrame : SpoolFrameV1 samplePlatform where
  batchId := "b1"
  sequence := 2
  record := sampleFinalized
  validBatchId := by decide
  validSequence := by decide

/-- The header of a segment with both frames. -/
def pairHeader : SegmentHeaderV1 where
  toHeaderFields := { sampleHeader.toHeaderFields with
    recordCount := 2
    contentSha256 := "2b0790046530676914b07091e19d26ae59be417ce346a9f17d3c10e0c8e75d6b" }
  valid := by decide +kernel

def sampleRecordIdDigest : Bytes :=
  [21, 81, 161, 161, 101, 181, 138, 113, 34, 53, 4, 189, 89, 115, 21, 178, 69,
    226, 116, 13, 96, 166, 247, 205, 189, 84, 61, 123, 106, 208, 250, 82]

def sampleDedupeDigest : Bytes :=
  [87, 125, 207, 200, 25, 47, 124, 71, 68, 255, 35, 116, 75, 242, 166, 237, 194,
    151, 46, 55, 182, 149, 55, 134, 147, 163, 243, 225, 64, 112, 58, 14]

def sampleContentDigest : Bytes :=
  [55, 46, 156, 215, 230, 2, 246, 20, 176, 98, 88, 170, 181, 93, 0, 184, 42,
    86, 161, 44, 201, 180, 83, 103, 15, 142, 161, 62, 188, 42, 29, 49]

def sampleFrameDigest : Bytes :=
  [116, 157, 171, 181, 87, 178, 29, 75, 10, 18, 187, 118, 11, 51, 37, 243, 88,
    13, 154, 47, 136, 214, 131, 52, 70, 225, 79, 26, 60, 178, 81, 69]

def sampleSegmentDigest : Bytes :=
  [51, 249, 49, 235, 23, 169, 108, 2, 65, 14, 44, 54, 49, 75, 99, 62, 252,
    157, 40, 253, 14, 62, 149, 186, 51, 166, 3, 133, 140, 123, 163, 243]

def samplePairDigest : Bytes :=
  [43, 7, 144, 4, 101, 48, 103, 105, 20, 176, 112, 145, 225, 157, 38, 174, 89,
    190, 65, 124, 227, 70, 169, 241, 125, 60, 16, 224, 200, 231, 93, 107]

def samplePairSegmentDigest : Bytes :=
  [125, 255, 159, 43, 224, 74, 27, 191, 97, 93, 90, 61, 161, 169, 60, 77, 248,
    143, 6, 1, 153, 28, 55, 141, 38, 141, 15, 238, 25, 63, 123, 204]

/-- The lines of both frames. -/
def pairLines : Except CanonicalizationError Bytes := do
  let first ← spoolFrameLine sampleFrame
  let second ← spoolFrameLine nextFrame
  .ok (first ++ second)

/-- SHA-256, on the lines of the sample segments, on the segments, of which the first is the shorter,
and on the projections of the sample record. -/
def sampleSha256 (content : Bytes) : Bytes :=
  if content.head? = some 123 then
    if spoolFrameLine sampleFrame = .ok content then sampleFrameDigest
    else if pairLines = .ok content then samplePairDigest
    else if content.length < 2000 then sampleSegmentDigest
    else samplePairSegmentDigest
  else if Domain.recordIdDomain <+: content then sampleRecordIdDigest
  else if Domain.dedupeDomain <+: content then sampleDedupeDigest
  else sampleContentDigest

/-- The validators read the one record there is. -/
def sampleWire : WireRuntime samplePlatform where
  recursionError _ := false
  sha256 := sampleSha256
  modelValidateJson _ := some sampleFinalized

theorem sampleInstallation_valid : matchesInstallationId Domain.sampleInstallation = true := by
  decide +kernel

def otherInstallation : String := "mh_in1_00000000000040008000000000000002"

theorem otherInstallation_valid : matchesInstallationId otherInstallation = true := by
  decide +kernel

/-- The domains differ in their tenth byte. -/
theorem not_prefix_of_domain {domain domain' : Bytes} (hlength : 9 < domain.length)
    (hlength' : 9 < domain'.length) (hne : domain[9]? ≠ domain'[9]?) (bytes : Bytes) :
    ¬ domain <+: domain' ++ bytes := by
  rintro ⟨rest, hrest⟩
  have hat : (domain ++ rest)[9]? = (domain' ++ bytes)[9]? := by rw [hrest]
  rw [List.getElem?_append_left hlength, List.getElem?_append_left hlength'] at hat
  exact hne hat

/-- A hash input under a domain starts with `m`, so it is no canonical object, which starts with a
brace. -/
theorem head_of_domain {domain : Bytes} (h : domain.head? = some 109) (bytes : Bytes) :
    (domain ++ bytes).head? ≠ some 123 := by
  rw [List.head?_append, h]
  show some 109 ≠ some 123
  decide

/-- The sample digest of every record identity is one constant. -/
theorem sampleDigest_record (bytes : Bytes) :
    sampleSha256 (Domain.recordIdDomain ++ bytes) = sampleRecordIdDigest := by
  unfold sampleSha256
  rw [if_neg (head_of_domain (by decide +kernel) bytes), if_pos (List.prefix_append _ _)]

/-- The sample digest of every dedupe identity is another constant. -/
theorem sampleDigest_dedupe (bytes : Bytes) :
    sampleSha256 (Domain.dedupeDomain ++ bytes) = sampleDedupeDigest := by
  have hother : ¬ Domain.recordIdDomain <+: Domain.dedupeDomain ++ bytes :=
    not_prefix_of_domain (by decide +kernel) (by decide +kernel) (by decide +kernel) bytes
  unfold sampleSha256
  rw [if_neg (head_of_domain (by decide +kernel) bytes), if_neg hother,
    if_pos (List.prefix_append _ _)]

/-- And so is that of every content. -/
theorem sampleDigest_content (bytes : Bytes) :
    sampleSha256 (Domain.contentDomain ++ bytes) = sampleContentDigest := by
  have hother : ¬ Domain.recordIdDomain <+: Domain.contentDomain ++ bytes :=
    not_prefix_of_domain (by decide +kernel) (by decide +kernel) (by decide +kernel) bytes
  have hother' : ¬ Domain.dedupeDomain <+: Domain.contentDomain ++ bytes :=
    not_prefix_of_domain (by decide +kernel) (by decide +kernel) (by decide +kernel) bytes
  unfold sampleSha256
  rw [if_neg (head_of_domain (by decide +kernel) bytes), if_neg hother, if_neg hother']

/-- A line of an object starts with a brace. -/
theorem head_of_line {limits : CanonicalLimits}
    {ms : List (String × PyValue samplePlatform.runtime.Float)} {line : Bytes}
    (h : (canonicalJsonBytes samplePlatform.runtime limits (.dict ms)).map (· ++ [lineFeed]) =
      .ok line) : line.head? = some 123 := by
  obtain ⟨bytes, hbytes, rfl⟩ := line_eq_ok h
  obtain ⟨-, rfl⟩ := canonicalJsonBytes_eq_ok_iff.mp hbytes
  rw [canonicalText_dict]
  rfl

/-- The digest of a canonical projection is that of its domain. -/
theorem domainDigest_of_sample {domain digest : Bytes} {v : PyValue samplePlatform.runtime.Float}
    (h : ∃ bytes, canonicalJsonBytes samplePlatform.runtime recordLimits v = .ok bytes)
    (hdigest : ∀ bytes, sampleSha256 (domain ++ bytes) = digest) :
    Domain.domainDigest samplePlatform sampleSha256 domain v = .ok digest := by
  obtain ⟨bytes, hbytes⟩ := h
  unfold Domain.domainDigest
  rw [hbytes]
  exact congrArg Except.ok (hdigest bytes)

/-- The digests of the sample do not tell one installation from another. -/
theorem sample_finalized {installationId : String}
    (hinstallation : matchesInstallationId installationId = true) :
    Domain.finalizeRecord samplePlatform sampleSha256 installationId sampleFinalized.draft =
      .ok sampleFinalized.toRecordEnvelopeV1 := by
  have hcontent : ∃ bytes, canonicalJsonBytes samplePlatform.runtime recordLimits
      (.dict (Domain.contentProjection
        (Domain.dumpFields (Domain.draftFields samplePlatform) Domain.sampleDraft))) = .ok bytes :=
    Except.exists_eq_ok (by decide +kernel)
  refine Domain.finalizeRecord_of ?_ ?_ ?_ ?_
  · refine Except.bind_eq_ok_iff.mpr ⟨sampleRecordIdDigest, ?_, ?_⟩
    · exact domainDigest_of_sample (canonical_identity sampleFinalized hinstallation)
        sampleDigest_record
    · decide +kernel
  · refine Except.bind_eq_ok_iff.mpr ⟨sampleDedupeDigest, ?_, ?_⟩
    · exact domainDigest_of_sample (canonical_dedupe sampleFinalized hinstallation)
        sampleDigest_dedupe
    · decide +kernel
  · refine Except.bind_eq_ok_iff.mpr ⟨sampleContentDigest, ?_, ?_⟩
    · exact domainDigest_of_sample hcontent sampleDigest_content
    · decide +kernel
  · obtain ⟨bytes, hbytes⟩ := sampleFinalized.canonical
    unfold Domain.validateEnvelope
    rw [hbytes]

theorem sample_reads_next : List.Forall₂ (fun (frame : SpoolFrameV1 samplePlatform) record =>
    Rereads sampleWire frame.record record) [nextFrame] [sampleFinalized] :=
  .cons ⟨⟨_, rfl, rfl⟩, ⟨rfl, rfl, rfl⟩, rfl⟩ .nil

/-- The frame of the sample segment reads back as the finalized record. -/
theorem sample_reads : List.Forall₂ (fun (frame : SpoolFrameV1 samplePlatform) record =>
    Rereads sampleWire frame.record record) [sampleFrame] [sampleFinalized] :=
  .cons ⟨⟨_, rfl, rfl⟩, ⟨rfl, rfl, rfl⟩, rfl⟩ .nil

theorem pair_reads : List.Forall₂ (fun (frame : SpoolFrameV1 samplePlatform) record =>
    Rereads sampleWire frame.record record) [sampleFrame, nextFrame]
      [sampleFinalized, sampleFinalized] :=
  .cons ⟨⟨_, rfl, rfl⟩, ⟨rfl, rfl, rfl⟩, rfl⟩ sample_reads_next

/-- The sample segment can be built. -/
theorem sample_build : ∃ content, buildSegmentBytes sampleWire sampleFrameHeader [sampleFrame] =
    .ok content := by
  obtain ⟨headerLine, hheader⟩ := spoolSegmentHeaderLine_of_size (P := samplePlatform)
    (@size_header_le samplePlatform sampleFrameHeader (by decide))
  obtain ⟨line, hline⟩ := spoolFrameLine_ok sampleFrame
  have hheaderLength : headerLine.length ≤ 8192 := length_line_le (by decide) hheader
  have hlength : line.length ≤ 263168 := length_line_le (by decide) hline
  have hdigest : sampleSha256 line = sampleFrameDigest := by
    unfold sampleSha256
    rw [if_pos (head_of_line hline), if_pos hline]
  refine ⟨headerLine ++ [line].flatten, buildSegmentBytes_of sampleWire hheader (.cons hline .nil) ?_
    (by decide) rfl rfl ?_⟩
  · unfold maxSegmentFileBytes
    rw [List.flatten_singleton]
    omega
  · show String.ofList (Radix.hex (sampleSha256 [line].flatten)) = _
    rw [List.flatten_singleton, hdigest]
    decide +kernel

/-- The segment of both frames, line by line. -/
theorem pair_build : ∃ headerLine first second,
    spoolFrameLine sampleFrame = .ok first ∧ spoolFrameLine nextFrame = .ok second ∧
      buildSegmentBytes sampleWire pairHeader [sampleFrame, nextFrame] =
        .ok (headerLine ++ (first ++ second)) := by
  obtain ⟨headerLine, hheader⟩ := spoolSegmentHeaderLine_of_size (P := samplePlatform)
    (@size_header_le samplePlatform pairHeader (by decide))
  obtain ⟨first, hfirst⟩ := spoolFrameLine_ok sampleFrame
  obtain ⟨second, hsecond⟩ := spoolFrameLine_ok nextFrame
  have hheaderLength : headerLine.length ≤ 8192 := length_line_le (by decide) hheader
  have hfirstLength : first.length ≤ 263168 := length_line_le (by decide) hfirst
  have hsecondLength : second.length ≤ 263168 := length_line_le (by decide) hsecond
  have hflatten : [first, second].flatten = first ++ second := by
    rw [List.flatten_cons, List.flatten_singleton]
  -- the lines of both frames are more than those of the first
  have hlonger : spoolFrameLine sampleFrame ≠ .ok (first ++ second) := by
    intro h
    have hsame : first = first ++ second := Except.ok.inj (hfirst.symm.trans h)
    exact (isLine_of_canonicalJsonBytes hsecond).ne_nil (List.append_right_eq_self.mp hsame.symm)
  have hlines : pairLines = .ok (first ++ second) := by
    unfold pairLines
    rw [hfirst, hsecond]
    rfl
  have hhead : (first ++ second).head? = some 123 := by
    rw [List.head?_append, head_of_line hfirst]
    rfl
  have hdigest : sampleSha256 (first ++ second) = samplePairDigest := by
    unfold sampleSha256
    rw [if_pos hhead, if_neg hlonger, if_pos hlines]
  refine ⟨headerLine, first, second, hfirst, hsecond, ?_⟩
  rw [← hflatten]
  refine buildSegmentBytes_of sampleWire hheader (.cons hfirst (.cons hsecond .nil)) ?_ (by decide) rfl rfl ?_
  · unfold maxSegmentFileBytes
    rw [hflatten, List.length_append]
    omega
  · show String.ofList (Radix.hex (sampleSha256 [first, second].flatten)) = _
    rw [hflatten, hdigest]
    decide +kernel

/-- The sample segment, as it is written and as it is read. -/
theorem sample_parse : ∃ content,
    buildSegmentBytes sampleWire sampleFrameHeader [sampleFrame] = .ok content ∧
      parseSegmentBytes sampleWire content = .ok ⟨sampleFrameHeader, [sampleFrame], content.length,
        sampleWire.hexdigest content⟩ := by
  obtain ⟨content, hbuild⟩ := sample_build
  exact ⟨content, hbuild, parse_of_build (fun _ _ => rfl) sample_reads hbuild⟩

/-- Any installation trusts the segment, under the digests of the sample. -/
theorem sample_trusted {installationId : String}
    (hinstallation : matchesInstallationId installationId = true) {content : Bytes}
    (hbuild : buildSegmentBytes sampleWire sampleFrameHeader [sampleFrame] = .ok content) :
    readTrusted sampleWire installationId content = .ok ⟨sampleFrameHeader, [sampleFrame],
      content.length, sampleWire.hexdigest content⟩ := by
  refine readTrusted_of_build (fun _ _ => rfl) hinstallation sample_reads ?_ hbuild
  exact List.forall_mem_singleton.mpr (verify_of_finalized (sample_finalized hinstallation))

/-! ## The bytes of a segment -/

section Bytes

variable {P : CanonicalPlatform} {wire : WireRuntime P}

/-- **Two segments have the same bytes exactly where they agree**: on the header, and on every frame
up to the normal form of its record. -/
theorem buildSegmentBytes_eq_iff {h h' : SegmentHeaderV1} {frames frames' : List (SpoolFrameV1 P)}
    {content content' : Bytes} (hbuild : buildSegmentBytes wire h frames = .ok content)
    (hbuild' : buildSegmentBytes wire h' frames' = .ok content') :
    content = content' ↔ h = h' ∧ List.Forall₂ SameFrame frames frames' := by
  constructor
  · rintro rfl
    exact same_of_build hbuild hbuild'
  · rintro ⟨rfl, hsame⟩
    obtain ⟨headerLine, frameLines, hheader, hlines, rfl, -⟩ := buildSegmentBytes_ok hbuild
    obtain ⟨headerLine', frameLines', hheader', hlines', rfl, -⟩ := buildSegmentBytes_ok hbuild'
    rw [Except.ok.inj (hheader.symm.trans hheader'),
      lines_unique (frameLines_of_same hsame hlines) hlines']

/-- The segments with one frame and with both differ in their headers, so in their bytes. -/
theorem buildSegmentBytes_eq_iff_sample : ∃ content content',
    buildSegmentBytes sampleWire sampleFrameHeader [sampleFrame] = .ok content ∧
      buildSegmentBytes sampleWire pairHeader [sampleFrame, nextFrame] = .ok content' ∧
      (content = content' ↔ sampleFrameHeader = pairHeader ∧
        List.Forall₂ SameFrame [sampleFrame] [sampleFrame, nextFrame]) ∧ content ≠ content' := by
  obtain ⟨content, hbuild⟩ := sample_build
  obtain ⟨headerLine, first, second, -, -, hbuild'⟩ := pair_build
  have hiff := buildSegmentBytes_eq_iff hbuild hbuild'
  refine ⟨content, _, hbuild, hbuild', hiff, fun hsame => ?_⟩
  have hlength := (hiff.mp hsame).2.length_eq
  cases hlength

/-- **What the reader accepts is what the writer builds** from the header and the frames it read; it
reports the size and the digest of the content, and no other content is read as the same. -/
theorem parseSegmentBytes_sound {content : Bytes} {segment : ParsedSegment (SpoolFrameV1 P)}
    (h : parseSegmentBytes wire content = .ok segment) :
    buildSegmentBytes wire segment.header segment.frames = .ok content ∧
      segment.byteSize = content.length ∧ segment.fileSha256 = wire.hexdigest content ∧
      ∀ content' segment', parseSegmentBytes wire content' = .ok segment' →
        segment.header = segment'.header →
          List.Forall₂ SameFrame segment.frames segment'.frames → content = content' := by
  obtain ⟨hbuild, hsize, hsha256⟩ := build_of_parse wire h
  refine ⟨hbuild, hsize, hsha256, fun content' segment' h' hheader hframes => ?_⟩
  obtain ⟨hbuild', -⟩ := build_of_parse wire h'
  obtain ⟨headerLine, frameLines, hline, hlines, rfl, -⟩ := buildSegmentBytes_ok hbuild
  obtain ⟨headerLine', frameLines', hline', hlines', rfl, -⟩ := buildSegmentBytes_ok hbuild'
  rw [hheader] at hline
  rw [Except.ok.inj (hline.symm.trans hline'),
    lines_unique (frameLines_of_same hframes hlines) hlines']

theorem parseSegmentBytes_sound_sample : ∃ content segment,
    parseSegmentBytes sampleWire content = .ok segment ∧
      buildSegmentBytes sampleWire segment.header segment.frames = .ok content ∧
      segment.byteSize = content.length ∧ segment.fileSha256 = sampleWire.hexdigest content ∧
      ∀ content' segment', parseSegmentBytes sampleWire content' = .ok segment' →
        segment.header = segment'.header →
          List.Forall₂ SameFrame segment.frames segment'.frames → content = content' := by
  obtain ⟨content, -, hparse⟩ := sample_parse
  exact ⟨content, _, hparse, parseSegmentBytes_sound hparse⟩

/-- **A segment that lost its end is not accepted**, wherever it was cut. -/
theorem parseSegmentBytes_prefix {content part : Bytes}
    {segment segment' : ParsedSegment (SpoolFrameV1 P)}
    (h : parseSegmentBytes wire content = .ok segment) (hpart : part <+: content)
    (hlost : part ≠ content) : parseSegmentBytes wire part ≠ .ok segment' := by
  intro h'
  obtain ⟨headerLine, frameLines, hsplit, hheader, hframes, -, hcount, -⟩ := parseSegmentBytes_ok wire h
  obtain ⟨headerLine', frameLines', hsplit', hheader', hframes', -, hcount', -⟩ :=
    parseSegmentBytes_ok wire h'
  obtain ⟨-, hcut, -⟩ := splitLines_ok hsplit
  obtain ⟨-, hcut', -⟩ := splitLines_ok hsplit'
  obtain ⟨more, rfl⟩ := hpart
  -- the lines of the part are the first lines of the content
  have hlines' := @Lines.isLine_of_mem_cut _ lineFeed _ part
  have happend' := @Lines.cut_append _ lineFeed _ part
  rw [hcut'] at hlines' happend'
  rw [List.append_nil] at happend'
  rw [← happend', Lines.cut_lines hlines', Prod.mk.injEq, List.cons_append, List.cons.injEq] at hcut
  obtain ⟨⟨rfl, hrest⟩, hend⟩ := hcut
  -- so they have one header, and it counts the frames of both
  rw [hheader] at hheader'
  have hsame : segment.header = segment'.header := Except.ok.inj hheader'
  have hlength := (parseFrames_ok wire hframes).1.length_eq
  have hlength' := (parseFrames_ok wire hframes').1.length_eq
  rw [← hrest, List.length_append] at hlength
  have hnone : (Lines.cut lineFeed more).1 = [] := by
    rw [hsame] at hcount
    exact List.length_eq_zero_iff.mp (by omega)
  have hmore := @Lines.cut_append _ lineFeed _ more
  rw [hnone, hend] at hmore
  exact hlost (by rw [← hmore]; exact (List.append_nil part).symm)

/-- The segment with both frames, cut where the second one starts. -/
theorem parseSegmentBytes_prefix_sample : ∃ headerLine first second segment,
    spoolFrameLine sampleFrame = .ok first ∧ spoolFrameLine nextFrame = .ok second ∧
      parseSegmentBytes sampleWire (headerLine ++ (first ++ second)) = .ok segment ∧
      ∀ segment', parseSegmentBytes sampleWire (headerLine ++ first) ≠ .ok segment' := by
  obtain ⟨headerLine, first, second, hfirst, hsecond, hbuild⟩ := pair_build
  have hparse := parse_of_build (fun _ _ => rfl) pair_reads hbuild
  refine ⟨headerLine, first, second, _, hfirst, hsecond, hparse, fun segment' => ?_⟩
  refine parseSegmentBytes_prefix hparse ?_ ?_
  · rw [← List.append_assoc]
    exact List.prefix_append _ _
  · rw [← List.append_assoc]
    intro hsame
    exact (isLine_of_canonicalJsonBytes hsecond).ne_nil (List.append_right_eq_self.mp hsame.symm)

/-- Frames past the check of their header are numbered from the sequence it starts with. -/
theorem sequences_of_checkFrames {header : SegmentHeaderV1} {index : Nat}
    {frames : List (SpoolFrameV1 P)} (h : checkFrames header index frames = .ok ()) :
    frames.map SpoolFrameV1.sequence = List.range' index frames.length := by
  induction frames generalizing index with
  | nil => rfl
  | cons frame rest ih =>
      obtain ⟨⟨⟩, hframe, hrest⟩ := Except.bind_eq_ok_iff.mp h
      have hsequence : frame.sequence = index := by
        unfold checkFrame at hframe
        split at hframe
        · cases hframe
        · rename_i hsame
          exact Decidable.not_not.mp hsame
      rw [List.map_cons, ih hrest, hsequence, List.length_cons, List.range'_succ]

/-- **The reader of segments is sound, whatever it is given**: it fails with an error of the spool, or
the content is what the writer builds from the header and the frames it read. Then every line is the
canonical line of its header or frame, the frames are numbered from one, the size and the digest are
those of the content, and no other content is read as the same header and frames. -/
theorem segmentParser_sound (wire : WireRuntime P) (content : Bytes) :
    (∃ failure, parseSegmentBytes wire content = .error (.spool failure)) ∨
      ∃ segment headerLine frameLines, parseSegmentBytes wire content = .ok segment ∧
        buildSegmentBytes wire segment.header segment.frames = .ok content ∧
        segment.byteSize = content.length ∧ segment.fileSha256 = wire.hexdigest content ∧
        spoolSegmentHeaderLine P.runtime segment.header = .ok headerLine ∧
        List.Forall₂ (fun frame line => spoolFrameLine frame = .ok line) segment.frames frameLines ∧
        content = headerLine ++ frameLines.flatten ∧
        segment.frames.map SpoolFrameV1.sequence = List.range' 1 segment.frames.length ∧
        ∀ content' segment', parseSegmentBytes wire content' = .ok segment' →
          segment.header = segment'.header →
            List.Forall₂ SameFrame segment.frames segment'.frames → content = content' := by
  rcases closed_parseSegmentBytes wire content with ⟨segment, hparse⟩ | hfails
  · right
    obtain ⟨hbuild, hsize, hsha256⟩ := build_of_parse wire hparse
    obtain ⟨headerLine, frameLines, hline, hlines, hcontent, -, -, -, hchecks, -⟩ :=
      buildSegmentBytes_ok hbuild
    refine ⟨segment, headerLine, frameLines, hparse, hbuild, hsize, hsha256, hline, hlines, hcontent,
      sequences_of_checkFrames hchecks, fun content' segment' hparse' hheader hframes => ?_⟩
    -- the other content is built from lines of the same header and frames
    obtain ⟨hbuild', -⟩ := build_of_parse wire hparse'
    obtain ⟨headerLine', frameLines', hline', hlines', hcontent', -⟩ := buildSegmentBytes_ok hbuild'
    rw [hheader] at hline
    rw [hcontent, hcontent', Except.ok.inj (hline.symm.trans hline'),
      lines_unique (frameLines_of_same hframes hlines) hlines']
  · exact Or.inl hfails

end Bytes

/-! ## Trusted state -/

section Trusted

variable {P : CanonicalPlatform} {wire : WireRuntime P}

/-- **The trusted reader gives a segment or an error of the spool, whatever it is given**: no error
of the encoder and none of an identity leaves it. -/
theorem readTrusted_total (wire : WireRuntime P) (installationId : String) (content : Bytes) :
    (∃ segment, readTrusted wire installationId content = .ok segment) ∨
      ∃ failure, readTrusted wire installationId content = .error (.spool failure) := by
  show Closed (readTrusted wire installationId content)
  unfold readTrusted
  refine closed_ite (fun _ => closed_fail_bind) fun hinstallation => ?_
  refine closed_bind (closed_parseSegmentBytes wire content) fun parsed _ => ?_
  refine closed_bind (closed_verifyIdentity wire (by simpa using hinstallation) _) fun _ _ => ?_
  exact closed_ok _

/-- **A segment of records that an installation finalized is trusted by it**: the trusted reader gives
back the header, and the frames around the records that their validators read. -/
theorem readTrusted_of_finalized (hshallow : wire.Shallow) {installationId : String}
    (hinstallation : matchesInstallationId installationId = true) {header : SegmentHeaderV1}
    {frames : List (SpoolFrameV1 P)} {records : List (FinalizedRecord P)} {content : Bytes}
    (hfinalized : ∀ frame ∈ frames, Domain.finalizeRecord P wire.sha256 installationId
      frame.record.draft = .ok frame.record.toRecordEnvelopeV1)
    (hreads : List.Forall₂ (fun frame record => Rereads wire frame.record record) frames records)
    (hbuild : buildSegmentBytes wire header frames = .ok content) :
    readTrusted wire installationId content = .ok ⟨header,
      List.zipWith SpoolFrameV1.withRecord frames records, content.length,
      wire.hexdigest content⟩ := by
  have hverify : ∀ frame ∈ frames, Domain.verifyRecordIdentity P wire.sha256 installationId
      frame.record.toRecordEnvelopeV1 = .ok () :=
    fun frame hframe => verify_of_finalized (hfinalized frame hframe)
  exact readTrusted_of_build hshallow hinstallation hreads hverify hbuild

theorem readTrusted_of_finalized_sample : ∃ content,
    readTrusted sampleWire Domain.sampleInstallation content = .ok ⟨sampleFrameHeader, [sampleFrame],
      content.length, sampleWire.hexdigest content⟩ := by
  obtain ⟨content, hbuild⟩ := sample_build
  refine ⟨content, readTrusted_of_finalized (fun _ _ => rfl) sampleInstallation_valid ?_ sample_reads
    hbuild⟩
  exact List.forall_mem_singleton.mpr (sample_finalized sampleInstallation_valid)

/-- The bytes whose digest is the id of a record under an installation. -/
def recordIdInput (installationId : String) (record : FinalizedRecord P) :
    Except CanonicalizationError Bytes := do
  let canonical ← canonicalJsonBytes P.runtime recordLimits
    (Domain.dump (Domain.identityFields P) (record.draft.identity installationId))
  pure (Domain.recordIdDomain ++ canonical)

/-- A record id is the token of the digest of its input. -/
theorem recordIdInput_of_derived {sha256 : Bytes → Bytes} {installationId recordId : String}
    {record : FinalizedRecord P}
    (h : Domain.deriveRecordId P sha256 (record.draft.identity installationId) = .ok recordId) :
    ∃ input, recordIdInput installationId record = .ok input ∧
      recordId = "mh_" ++ Domain.base32Digest (sha256 input) := by
  obtain ⟨digest, hdigest, hid⟩ := Except.bind_eq_ok_iff.mp h
  unfold Domain.domainDigest at hdigest
  split at hdigest
  · cases hdigest
  · rename_i canonical hcanonical
    rw [← Except.ok.inj hdigest] at hid
    exact ⟨_, Except.bind_eq_ok_iff.mpr ⟨canonical, hcanonical, rfl⟩, (Except.ok.inj hid).symm⟩

/-- The input of a record id names the installation. -/
theorem installationId_of_recordIdInput {installationId installationId' : String}
    (hinstallation : matchesInstallationId installationId = true)
    (hinstallation' : matchesInstallationId installationId' = true) {record : FinalizedRecord P}
    {input : Bytes} (h : recordIdInput installationId record = .ok input)
    (h' : recordIdInput installationId' record = .ok input) : installationId = installationId' := by
  obtain ⟨canonical, hcanonical, hinput⟩ := Except.bind_eq_ok_iff.mp h
  obtain ⟨canonical', hcanonical', hinput'⟩ := Except.bind_eq_ok_iff.mp h'
  have hbytes : canonical = canonical' :=
    List.append_cancel_left ((Except.ok.inj hinput).trans (Except.ok.inj hinput').symm)
  have hnormal := (canonicalJsonBytes_eq_iff hcanonical hcanonical').mp hbytes
  have hsame := (Domain.normal_dump_eq_iff Domain.plain_identityFields _ _).mp hnormal
    (Domain.textField P "installation_id" (·.installationId)) (by simp [Domain.identityFields])
  rw [Domain.same_textField] at hsame
  exact eq_of_normalizeString (isWireText_installationId hinstallation).1
    (isWireText_installationId hinstallation').1 hsame

/-- **A segment is trusted by one installation only**, unless the identities that two installations
give to each of its records are different inputs with one digest. -/
theorem readTrusted_installation {installationId installationId' : String} {content : Bytes}
    {segment segment' : ParsedSegment (SpoolFrameV1 P)}
    (h : readTrusted wire installationId content = .ok segment)
    (h' : readTrusted wire installationId' content = .ok segment') :
    installationId = installationId' ∨ ∀ frame ∈ segment.frames, ∃ input input',
      recordIdInput installationId frame.record = .ok input ∧
        recordIdInput installationId' frame.record = .ok input' ∧
          input ≠ input' ∧ wire.sha256 input = wire.sha256 input' := by
  obtain ⟨hinstallation, hparse, hverify⟩ := readTrusted_ok h
  obtain ⟨hinstallation', hparse', hverify'⟩ := readTrusted_ok h'
  obtain rfl := Except.ok.inj (hparse.symm.trans hparse')
  by_cases hone : installationId = installationId'
  · exact .inl hone
  · refine .inr fun frame hframe => ?_
    -- the record has one id, and both installations derive it
    have hrecord := (verifyRecordIdentity_eq_ok_iff wire.sha256).mp
      ((verifyIdentity_eq_ok_iff wire).mp hverify frame hframe)
    have hrecord' := (verifyRecordIdentity_eq_ok_iff wire.sha256).mp
      ((verifyIdentity_eq_ok_iff wire).mp hverify' frame hframe)
    obtain ⟨input, hinput, hid⟩ := recordIdInput_of_derived hrecord.1
    obtain ⟨input', hinput', hid'⟩ := recordIdInput_of_derived hrecord'.1
    refine ⟨input, input', hinput, hinput', ?_, ?_⟩
    · rintro rfl
      exact hone (installationId_of_recordIdInput hinstallation hinstallation' hinput hinput')
    · exact (Domain.token_eq_iff "mh_" _ _).mp (hid.symm.trans hid')

/-- Two installations trust the sample segment: under its digests the ids they give to the record are
the same, of inputs that are not. -/
theorem readTrusted_installation_sample : ∃ content segment,
    readTrusted sampleWire Domain.sampleInstallation content = .ok segment ∧
      readTrusted sampleWire otherInstallation content = .ok segment ∧
      ∀ frame ∈ segment.frames, ∃ input input',
        recordIdInput Domain.sampleInstallation frame.record = .ok input ∧
          recordIdInput otherInstallation frame.record = .ok input' ∧
            input ≠ input' ∧ sampleWire.sha256 input = sampleWire.sha256 input' := by
  obtain ⟨content, hbuild⟩ := sample_build
  have hread := sample_trusted sampleInstallation_valid hbuild
  have hread' := sample_trusted otherInstallation_valid hbuild
  refine ⟨content, _, hread, hread', ?_⟩
  rcases readTrusted_installation hread hread' with hsame | hinputs
  · exact absurd hsame (by decide)
  · exact hinputs

end Trusted

end Milhouse.Wire
