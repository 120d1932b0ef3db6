import Milhouse.Spool.WireSound

/-!
# Milhouse — the bytes of a segment determine it

No two headers have the same line, and two frames have the same line only where they agree on
everything but the spelling that normalization removes. So a content was built from one header and
one list of frames.

* **`eq_of_headerLine`** — a header is determined by its line;
* **`same_of_frameLine`** — a frame is, up to the normal form of its record;
* **`same_of_build`** — and so is a segment by its bytes.
-/

namespace Milhouse.Wire

open Json Text

/-! ## Lines without a line feed inside -/

section Fields

variable {P : CanonicalPlatform}

theorem line_eq_ok {limits : CanonicalLimits} {v : PyValue P.runtime.Float} {line : Bytes}
    (h : (canonicalJsonBytes P.runtime limits v).map (· ++ [lineFeed]) = .ok line) :
    ∃ bytes, canonicalJsonBytes P.runtime limits v = .ok bytes ∧ line = bytes ++ [lineFeed] := by
  cases hencode : canonicalJsonBytes P.runtime limits v with
  | error e => rw [hencode] at h; cases h
  | ok bytes => rw [hencode] at h; exact ⟨bytes, rfl, (Except.ok.inj h).symm⟩

/-- A line that was written is within its bound. -/
theorem length_line_le {bound : Nat} (hpos : 0 < bound) {v : PyValue P.runtime.Float} {line : Bytes}
    (h : (canonicalJsonBytes P.runtime (lineLimits bound) v).map (· ++ [lineFeed]) = .ok line) :
    line.length ≤ bound := by
  obtain ⟨bytes, hbytes, rfl⟩ := line_eq_ok h
  obtain ⟨⟨-, -, -, hsize⟩, rfl⟩ := canonicalJsonBytes_eq_ok_iff.mp hbytes
  have hbound : (lineLimits bound).maxBytes = bound - 1 := rfl
  rw [List.length_append, List.length_singleton]
  omega

/-- A canonical line has one line feed, its last byte. -/
theorem isLine_of_canonicalJsonBytes {limits : CanonicalLimits} {v : PyValue P.runtime.Float}
    {line : Bytes}
    (h : (canonicalJsonBytes P.runtime limits v).map (· ++ [lineFeed]) = .ok line) :
    Lines.IsLine lineFeed line := by
  obtain ⟨bytes, hbytes, rfl⟩ := line_eq_ok h
  refine ⟨bytes, rfl, fun hmem => ?_⟩
  rw [(canonicalJsonBytes_ok hbytes).2] at hmem
  obtain ⟨c, hc, hmem⟩ := List.mem_flatMap.mp hmem
  exact lineFeed_notMem (text_printable _ _ hc) hmem

/-- Values have one line only where they have one normal form. -/
theorem normal_eq_of_line {limits : CanonicalLimits} {v w : PyValue P.runtime.Float} {line : Bytes}
    (hv : (canonicalJsonBytes P.runtime limits v).map (· ++ [lineFeed]) = .ok line)
    (hw : (canonicalJsonBytes P.runtime limits w).map (· ++ [lineFeed]) = .ok line) :
    normal P v = normal P w := by
  obtain ⟨bytes, hbytes, rfl⟩ := line_eq_ok hv
  obtain ⟨bytes', hbytes', hsame⟩ := line_eq_ok hw
  exact (canonicalJsonBytes_eq_iff hbytes hbytes').mp (List.append_cancel_right hsame)

/-! ## Headers -/

/-- The fields of a header line. -/
def headerFields (P : CanonicalPlatform) : List (Domain.Field P SegmentHeaderV1) :=
  [Domain.textField P "batch_id" (·.batchId),
    Domain.textField P "config_generation" (·.configGeneration),
    Domain.textField P "content_sha256" (·.contentSha256),
    Domain.valueField P "frame_version" fun _ => .int frameVersion,
    Domain.textField P "privacy_class" fun h => Domain.privacyClassText h.privacyClass,
    Domain.valueField P "record_count" fun h => .int h.recordCount,
    Domain.valueField P "required_exporters" fun h => .list (h.requiredExporters.map .str),
    Domain.valueField P "retention_days" fun h => .int h.retentionDays,
    Domain.valueField P "schema" fun _ => .int schemaVersion,
    Domain.textField P "scope" fun h => Domain.scopeText h.scope,
    Domain.valueField P "target_id" fun h => (h.targetId.map .str).getD .none]

/-- The payload of a header is the dump of its fields. -/
theorem headerPayload_eq (header : SegmentHeaderV1) :
    headerPayload P.runtime header = Domain.dumpFields (headerFields P) header := rfl

theorem plain_headerFields : Domain.PlainFields (headerFields P) := by
  apply Domain.PlainFields.of_names
  simp only [headerFields, Domain.textField, Domain.valueField, List.map_cons, List.map_nil]
  decide

/-- Normalization keeps texts of wire characters apart. -/
theorem eq_of_normalizeString {a b : String} (ha : IsWireText a) (hb : IsWireText b)
    (h : normalizeString P.runtime a = normalizeString P.runtime b) : a = b := by
  rwa [normalizeString_ascii ha.ascii, normalizeString_ascii hb.ascii] at h

theorem eq_of_normal_int {m n : Nat}
    (h : normal P (.int m) = normal P (.int n)) : m = n := by
  rw [normal, normal, Value.int.injEq] at h
  exact Int.ofNat.inj h

/-- Lists of wire texts with one normal form are equal. -/
theorem eq_of_normal_texts {as bs : List String} (ha : ∀ a ∈ as, IsWireText a)
    (hb : ∀ b ∈ bs, IsWireText b)
    (h : normal P (.list (as.map .str)) = normal P (.list (bs.map .str))) : as = bs := by
  rw [normal_list, normal_list, Value.arr.injEq, List.map_map, List.map_map] at h
  induction as generalizing bs with
  | nil =>
      cases bs with
      | nil => rfl
      | cons b bs => cases h
  | cons a as ih =>
      cases bs with
      | nil => cases h
      | cons b bs =>
          rw [List.map_cons, List.map_cons, List.cons.injEq] at h
          obtain ⟨hfirst, hrest⟩ := h
          have htext : (normalizeString P.runtime a).toList = (normalizeString P.runtime b).toList :=
            Value.str.inj hfirst
          rw [eq_of_normalizeString (ha a List.mem_cons_self) (hb b List.mem_cons_self)
            (String.toList_inj.mp htext),
            ih (fun x hx => ha x (List.mem_cons_of_mem _ hx))
              (fun x hx => hb x (List.mem_cons_of_mem _ hx)) hrest]

/-- **A header is determined by its line.** -/
theorem eq_of_headerLine {h h' : SegmentHeaderV1} {line : Bytes}
    (hline : spoolSegmentHeaderLine P.runtime h = .ok line)
    (hline' : spoolSegmentHeaderLine P.runtime h' = .ok line) : h = h' := by
  have hv := fieldsValid_of_check h.valid
  have hv' := fieldsValid_of_check h'.valid
  have hnormal := normal_eq_of_line hline hline'
  rw [headerPayload_eq, headerPayload_eq] at hnormal
  -- Equal lines have equal normal forms, and these are compared field by field.
  have hsame := (Domain.normal_dump_eq_iff plain_headerFields h h').mp hnormal
  simp only [headerFields, List.forall_mem_cons, Domain.same_textField, Domain.same_valueField] at hsame
  obtain ⟨hbatch, hconfig, hdigest, -, hprivacy, hcount, hids, hdays, -, hscope, htarget, -⟩ := hsame
  have hbatchId := eq_of_normalizeString (isWireText_of_matchesId hv.batchId).1
    (isWireText_of_matchesId hv'.batchId).1 hbatch
  have hconfigGeneration := eq_of_normalizeString (isWireText_of_matchesSha256 hv.configGeneration)
    (isWireText_of_matchesSha256 hv'.configGeneration) hconfig
  have hcontent := eq_of_normalizeString (isWireText_of_matchesSha256 hv.contentSha256)
    (isWireText_of_matchesSha256 hv'.contentSha256) hdigest
  have hexporters := eq_of_normal_texts isWireText_exporters isWireText_exporters hids
  have hscopes := (Domain.normalizeString_scopeText _ _).mp hscope
  have hprivacies : h.privacyClass = h'.privacyClass := by
    have htext := eq_of_normalizeString (isWireText_privacyClass _) (isWireText_privacyClass _) hprivacy
    revert htext
    cases h.privacyClass <;> cases h'.privacyClass <;> decide
  -- The target is the one field that may be missing.
  have htargets : h.targetId = h'.targetId := by
    cases hleft : h.targetId with
    | none =>
        cases hright : h'.targetId with
        | none => rfl
        | some target => rw [hleft, hright] at htarget; cases htarget
    | some target =>
        cases hright : h'.targetId with
        | none => rw [hleft, hright] at htarget; cases htarget
        | some target' =>
            rw [hleft, hright] at htarget
            have htext : (normalizeString P.runtime target).toList =
                (normalizeString P.runtime target').toList := Value.str.inj htarget
            rw [eq_of_normalizeString (target_of_header hleft).1 (target_of_header hright).1
              (String.toList_inj.mp htext)]
  -- The proofs of validity are equal once the fields are.
  obtain ⟨fields, hvalid⟩ := h
  obtain ⟨fields', hvalid'⟩ := h'
  obtain rfl : fields = fields' := by
    cases fields
    cases fields'
    congr 1
    · exact eq_of_normal_int hdays
    · exact eq_of_normal_int hcount
  rfl

/-! ## Frames -/

/-- The fields of a frame line. -/
def frameFields (P : CanonicalPlatform) : List (Domain.Field P (SpoolFrameV1 P)) :=
  [Domain.textField P "batch_id" (·.batchId),
    Domain.valueField P "frame_version" fun _ => .int frameVersion,
    Domain.valueField P "record" fun f => f.record.dump,
    Domain.textField P "record_id" fun f => f.record.recordId,
    Domain.valueField P "sequence" fun f => .int f.sequence]

/-- The payload of a frame is the dump of its fields. -/
theorem framePayload_eq (frame : SpoolFrameV1 P) :
    framePayload frame = Domain.dumpFields (frameFields P) frame := rfl

theorem plain_frameFields : Domain.PlainFields (frameFields P) := by
  apply Domain.PlainFields.of_names
  simp only [frameFields, Domain.textField, Domain.valueField, List.map_cons, List.map_nil]
  decide

/-- Records that are written alike. -/
structure SameRecord (r r' : FinalizedRecord P) : Prop where
  dump : normal P r.dump = normal P r'.dump
  recordId : r.recordId = r'.recordId
  dedupeKey : r.dedupeKey = r'.dedupeKey

/-- The fields of records with one normal form are the same after normalization. -/
theorem same_of_dump {r r' : FinalizedRecord P} (h : normal P r.dump = normal P r'.dump) :
    ∀ f ∈ Domain.envelopeFields P, f.Same r.toRecordEnvelopeV1 r'.toRecordEnvelopeV1 :=
  (Domain.normal_dump_eq_iff Domain.plain_envelopeFields _ _).mp h

theorem SameRecord.same {r r' : FinalizedRecord P} (h : SameRecord r r') :
    ∀ f ∈ Domain.draftFields P, f.Same r.draft r'.draft := by
  intro f hf
  exact same_of_dump h.dump _ (List.mem_append_left _ (List.mem_map_of_mem hf))

theorem SameRecord.scope {r r' : FinalizedRecord P} (h : SameRecord r r') : r.scope = r'.scope := by
  have hscope := h.same (Domain.textField P "scope" fun d => Domain.scopeText d.scope)
    (by simp [Domain.draftFields])
  rw [Domain.same_textField] at hscope
  exact (Domain.normalizeString_scopeText _ _).mp hscope

theorem SameRecord.privacyClass {r r' : FinalizedRecord P} (h : SameRecord r r') :
    r.privacyClass = r'.privacyClass := by
  have hprivacy := h.same
    (Domain.textField P "privacy_class" fun d => Domain.privacyClassText d.privacyClass)
    (by simp [Domain.draftFields])
  rw [Domain.same_textField] at hprivacy
  have htext := eq_of_normalizeString (isWireText_privacyClass _) (isWireText_privacyClass _) hprivacy
  unfold FinalizedRecord.privacyClass
  revert htext
  cases r.draft.privacyClass <;> cases r'.draft.privacyClass <;> decide

theorem SameRecord.expiresAt {r r' : FinalizedRecord P} (h : SameRecord r r') :
    r.expiresAt = r'.expiresAt := by
  have hexpiry := h.same (Domain.stampField P "expires_at" (·.expiresAt))
    (by simp [Domain.draftFields])
  have htext : timestampText r.expiresAt = timestampText r'.expiresAt :=
    Value.str.inj (Option.some.inj hexpiry)
  have hread := parseTimestamp_timestampText r.expiresAt_valid
  rw [show timestampText r.draft.expiresAt = timestampText r'.draft.expiresAt from htext,
    parseTimestamp_timestampText r'.expiresAt_valid] at hread
  exact (Option.some.inj hread).symm

/-- Frames that agree but for what normalization removes from their records. -/
structure SameFrame (f f' : SpoolFrameV1 P) : Prop where
  batchId : f.batchId = f'.batchId
  sequence : f.sequence = f'.sequence
  record : SameRecord f.record f'.record

/-- **A frame is determined by its line**, up to the normal form of its record. -/
theorem same_of_frameLine {f f' : SpoolFrameV1 P} {line : Bytes}
    (hline : spoolFrameLine f = .ok line) (hline' : spoolFrameLine f' = .ok line) :
    SameFrame f f' := by
  have hnormal := normal_eq_of_line hline hline'
  rw [framePayload_eq, framePayload_eq] at hnormal
  have hsame := (Domain.normal_dump_eq_iff plain_frameFields f f').mp hnormal
  simp only [frameFields, List.forall_mem_cons, Domain.same_textField, Domain.same_valueField] at hsame
  obtain ⟨hbatch, -, hdump, hid, hsequence, -⟩ := hsame
  have hbatchId := eq_of_normalizeString (isWireText_of_matchesId f.validBatchId).1
    (isWireText_of_matchesId f'.validBatchId).1 hbatch
  have hrecordId := eq_of_normalizeString (isWireText_recordId f.record.recordId_valid).1
    (isWireText_recordId f'.record.recordId_valid).1 hid
  have hkey := same_of_dump hdump (Domain.textField P "dedupe_key" (·.dedupeKey))
    (by simp [Domain.envelopeFields])
  rw [Domain.same_textField] at hkey
  have hdedupeKey := eq_of_normalizeString (isWireText_dedupeKey f.record.dedupeKey_valid).1
    (isWireText_dedupeKey f'.record.dedupeKey_valid).1 hkey
  exact ⟨hbatchId, eq_of_normal_int hsequence, hdump, hrecordId, hdedupeKey⟩

/-- Frames that agree have one line. -/
theorem frameLine_of_same {f f' : SpoolFrameV1 P} {line : Bytes} (h : SameFrame f f')
    (hline : spoolFrameLine f = .ok line) : spoolFrameLine f' = .ok line := by
  obtain ⟨line', hline'⟩ := spoolFrameLine_ok f'
  have hnormal : normal P (.dict (framePayload f)) = normal P (.dict (framePayload f')) := by
    rw [framePayload_eq, framePayload_eq]
    refine (Domain.normal_dump_eq_iff plain_frameFields f f').mpr ?_
    simp only [frameFields, List.forall_mem_cons, Domain.same_textField, Domain.same_valueField]
    rw [h.batchId, h.sequence, h.record.recordId]
    exact ⟨rfl, trivial, h.record.dump, rfl, rfl, List.forall_mem_nil _⟩
  obtain ⟨bytes, hbytes, rfl⟩ := line_eq_ok hline
  obtain ⟨bytes', hbytes', rfl⟩ := line_eq_ok hline'
  rw [hline', (canonicalJsonBytes_eq_iff hbytes hbytes').mpr hnormal]

/-- Frames written as the same lines are the same, field by field. -/
theorem same_of_frameLines {frames frames' : List (SpoolFrameV1 P)} {lines : List Bytes}
    (h : List.Forall₂ (fun frame line => spoolFrameLine frame = .ok line) frames lines)
    (h' : List.Forall₂ (fun frame line => spoolFrameLine frame = .ok line) frames' lines) :
    List.Forall₂ SameFrame frames frames' := by
  induction h generalizing frames' with
  | nil => cases h' with | nil => exact .nil
  | cons hline _ ih =>
      cases h' with
      | cons hline' hlines' => exact .cons (same_of_frameLine hline hline') (ih hlines')

end Fields

/-! ## Segments -/

section Segments

variable {P : CanonicalPlatform} {wire : WireRuntime P}

/-- Frames that were encoded are written as these lines, within the size of a segment. -/
theorem encodeFrames_ok {frames : List (SpoolFrameV1 P)} {lines : List Bytes} {total : Nat}
    (h : encodeFrames total frames = .ok lines) :
    List.Forall₂ (fun frame line => spoolFrameLine frame = .ok line) frames lines ∧
      (frames ≠ [] → total + lines.flatten.length ≤ maxSegmentFileBytes) := by
  induction frames generalizing total lines with
  | nil =>
      obtain rfl := Except.ok.inj h
      exact ⟨.nil, fun hne => absurd rfl hne⟩
  | cons frame rest ih =>
      rw [encodeFrames] at h
      obtain ⟨line, hline, h⟩ := Except.bind_eq_ok_iff.mp h
      obtain ⟨hfits, h⟩ := passed_check h
      obtain ⟨others, hothers, h⟩ := Except.bind_eq_ok_iff.mp h
      obtain rfl := Except.ok.inj h
      obtain ⟨hlines, hrest⟩ := ih hothers
      refine ⟨.cons (encoded_eq_ok_iff.mp hline) hlines, fun _ => ?_⟩
      rw [List.flatten_cons, List.length_append]
      cases rest with
      | nil =>
          cases hlines with
          | nil =>
              rw [List.flatten_nil, List.length_nil]
              omega
      | cons next rest =>
          have hle := hrest (List.cons_ne_nil _ _)
          omega

/-- What the writer wrote: the line of the header, and those of the frames. -/
theorem buildSegmentBytes_ok {header : SegmentHeaderV1} {frames : List (SpoolFrameV1 P)}
    {content : Bytes} (h : buildSegmentBytes wire header frames = .ok content) :
    ∃ headerLine frameLines, spoolSegmentHeaderLine P.runtime header = .ok headerLine ∧
      List.Forall₂ (fun frame line => spoolFrameLine frame = .ok line) frames frameLines ∧
      content = headerLine ++ frameLines.flatten ∧
      content.length ≤ maxSegmentFileBytes ∧ frames.length ≤ maxSegmentFrames ∧
      header.recordCount = frames.length ∧ checkFrames header 1 frames = .ok () ∧
      spoolContentSha256 wire frameLines = header.contentSha256 := by
  unfold buildSegmentBytes at h
  obtain ⟨hadmitted, h⟩ := passed_check h
  obtain ⟨⟨⟩, hconsistent, h⟩ := Except.bind_eq_ok_iff.mp h
  obtain ⟨headerLine, hheader, h⟩ := Except.bind_eq_ok_iff.mp h
  obtain ⟨frameLines, hframes, h⟩ := Except.bind_eq_ok_iff.mp h
  obtain ⟨hdigest, h⟩ := passed_check h
  obtain rfl := Except.ok.inj h
  obtain ⟨hcount, hchecks⟩ := passed_last hconsistent
  obtain ⟨hlines, hfits⟩ := encodeFrames_ok hframes
  have hheaderLine := encoded_eq_ok_iff.mp hheader
  refine ⟨headerLine, frameLines, hheaderLine, hlines, rfl, ?_, Nat.le_of_not_lt hadmitted,
    Decidable.not_not.mp hcount, hchecks, Decidable.not_not.mp hdigest⟩
  rw [List.length_append]
  cases frames with
  | nil =>
      cases hlines
      have hle : headerLine.length ≤ maxHeaderLineBytes := length_line_le (by decide) hheaderLine
      have hbounds : maxHeaderLineBytes ≤ maxSegmentFileBytes := by decide
      rw [List.flatten_nil, List.length_nil]
      omega
  | cons frame frames => exact hfits (List.cons_ne_nil _ _)

theorem isLine_of_frameLines {frames : List (SpoolFrameV1 P)} {lines : List Bytes}
    (h : List.Forall₂ (fun frame line => spoolFrameLine frame = .ok line) frames lines) :
    ∀ line ∈ lines, Lines.IsLine lineFeed line := by
  induction h with
  | nil => exact fun _ hmem => absurd hmem List.not_mem_nil
  | cons hline _ ih =>
      intro line hmem
      rcases List.mem_cons.mp hmem with rfl | hmem
      · exact isLine_of_canonicalJsonBytes hline
      · exact ih line hmem

/-- The lines that were written are the lines of the content. -/
theorem cut_segment {header : SegmentHeaderV1} {frames : List (SpoolFrameV1 P)}
    {headerLine : Bytes} {frameLines : List Bytes}
    (hheader : spoolSegmentHeaderLine P.runtime header = .ok headerLine)
    (hframes : List.Forall₂ (fun frame line => spoolFrameLine frame = .ok line) frames frameLines) :
    Lines.cut lineFeed (headerLine ++ frameLines.flatten) = (headerLine :: frameLines, []) := by
  have hlines : ∀ line ∈ headerLine :: frameLines, Lines.IsLine lineFeed line := by
    intro line hmem
    rcases List.mem_cons.mp hmem with rfl | hmem
    · exact isLine_of_canonicalJsonBytes hheader
    · exact isLine_of_frameLines hframes line hmem
  have hcut := @Lines.cut_flatten _ lineFeed _ _ [] hlines List.not_mem_nil
  rwa [List.append_nil, List.flatten_cons] at hcut

/-- **A segment is determined by its bytes**: the header, and the frames up to the normal forms of
their records. -/
theorem same_of_build {h h' : SegmentHeaderV1} {frames frames' : List (SpoolFrameV1 P)}
    {content : Bytes} (hbuild : buildSegmentBytes wire h frames = .ok content)
    (hbuild' : buildSegmentBytes wire h' frames' = .ok content) :
    h = h' ∧ List.Forall₂ SameFrame frames frames' := by
  obtain ⟨headerLine, frameLines, hheader, hlines, hcontent, -⟩ := buildSegmentBytes_ok hbuild
  obtain ⟨headerLine', frameLines', hheader', hlines', hcontent', -⟩ := buildSegmentBytes_ok hbuild'
  have hcut := cut_segment hheader hlines
  rw [← hcontent, hcontent', cut_segment hheader' hlines'] at hcut
  obtain ⟨rfl, rfl⟩ := List.cons.inj (Prod.mk.inj hcut).1
  exact ⟨eq_of_headerLine hheader hheader', same_of_frameLines hlines hlines'⟩

/-- Frames that agree have the same lines. -/
theorem frameLines_of_same {frames frames' : List (SpoolFrameV1 P)} {lines : List Bytes}
    (h : List.Forall₂ SameFrame frames frames')
    (hlines : List.Forall₂ (fun frame line => spoolFrameLine frame = .ok line) frames lines) :
    List.Forall₂ (fun frame line => spoolFrameLine frame = .ok line) frames' lines := by
  induction hlines generalizing frames' with
  | nil => cases h with | nil => exact .nil
  | cons hline _ ih =>
      cases h with
      | cons hsame hrest => exact .cons (frameLine_of_same hsame hline) (ih hrest)

/-- The lines of frames are theirs alone. -/
theorem lines_unique {frames : List (SpoolFrameV1 P)} {lines lines' : List Bytes}
    (h : List.Forall₂ (fun frame line => spoolFrameLine frame = .ok line) frames lines)
    (h' : List.Forall₂ (fun frame line => spoolFrameLine frame = .ok line) frames lines') :
    lines = lines' := by
  induction h generalizing lines' with
  | nil => cases h' with | nil => rfl
  | cons hline _ ih =>
      cases h' with
      | cons hline' hrest =>
          rw [Except.ok.inj (hline.symm.trans hline'), ih hrest]

end Segments

end Milhouse.Wire
