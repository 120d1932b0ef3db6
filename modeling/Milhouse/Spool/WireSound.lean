import Milhouse.Spool.WireHeader

/-!
# Milhouse — what the reader accepts is what the writer builds

The reader takes no line on trust: it writes the header or the frame it made of the line, and the
line must be that. Around the lines it checks what the writer checks, so the content it accepts is
the content that the writer builds from what it read.

* `Closed` — a computation that fails with an error of the spool only;
* **`closed_parseSegmentBytes`** — no content makes the reader fail in any other way;
* **`build_of_parse`** — the writer builds the content that was accepted.
-/

namespace Milhouse.Wire

open Text

/-! ## Failures -/

/-- A computation that fails with an error of the spool only. -/
def Closed {α : Type} (x : Except WireError α) : Prop :=
  (∃ a, x = .ok a) ∨ ∃ failure, x = .error (.spool failure)

section Closed

variable {α β : Type} {x : Except WireError α}

/-- A result is a closed one: it is no error that the reader would let escape. -/
theorem closed_ok (a : α) : Closed (.ok a : Except WireError α) := Or.inl ⟨a, rfl⟩

/-- An error under one of the reader's own codes is closed. -/
theorem closed_fail (code message : String) : Closed (fail code message : Except WireError α) :=
  Or.inr ⟨⟨code, message⟩, rfl⟩

/-- A sequence raises coded errors only, if both parts do. -/
theorem closed_bind {f : α → Except WireError β} (hx : Closed x)
    (hf : ∀ a, x = .ok a → Closed (f a)) : Closed (x >>= f) := by
  rcases hx with ⟨a, rfl⟩ | ⟨failure, rfl⟩
  · exact hf a rfl
  · exact Or.inr ⟨failure, rfl⟩

/-- Nothing runs behind a failure. -/
theorem closed_fail_bind {code message : String} {f : α → Except WireError β} :
    Closed ((fail code message : Except WireError α) >>= f) :=
  closed_bind (closed_fail _ _) fun _ h => by cases h

/-- A check is closed if both of its outcomes are. -/
theorem closed_ite {p : Prop} [Decidable p] {y : Except WireError α} (hx : p → Closed x)
    (hy : ¬ p → Closed y) : Closed (if p then x else y) := by
  by_cases hp : p
  · rw [if_pos hp]
    exact hx hp
  · rw [if_neg hp]
    exact hy hp

/-- A check that was passed let the rest run. -/
theorem passed_check {p : Prop} [Decidable p] {code message : String} {f : α → Except WireError β}
    {rest : Except WireError β} {b : β}
    (h : (if p then (fail code message : Except WireError α) >>= f else rest) = .ok b) :
    ¬ p ∧ rest = .ok b := by
  by_cases hp : p
  · rw [if_pos hp] at h
    cases h
  · rw [if_neg hp] at h
    exact ⟨hp, h⟩

/-- A refusal that comes last was not taken where the whole succeeded. -/
theorem passed_last {p : Prop} [Decidable p] {code message : String} {rest : Except WireError β}
    {b : β} (h : (if p then fail code message else rest) = .ok b) : ¬ p ∧ rest = .ok b := by
  by_cases hp : p
  · rw [if_pos hp] at h
    cases h
  · rw [if_neg hp] at h
    exact ⟨hp, h⟩

/-- Translating an encoder error to a wire error leaves successes alone. -/
theorem encoded_eq_ok_iff {result : Except CanonicalizationError α} {a : α} :
    encoded result = .ok a ↔ result = .ok a := by
  cases result with
  | error e => exact ⟨fun h => (by cases h), fun h => (by cases h)⟩
  | ok b => exact ⟨fun h => congrArg Except.ok (Except.ok.inj h), fun h => congrArg _ (Except.ok.inj h)⟩

/-- Canonical encoding is closed where it is known to succeed, and there alone it is used. -/
theorem closed_encoded {result : Except CanonicalizationError α} {a : α} (h : result = .ok a) :
    Closed (encoded result) := by
  rw [encoded_eq_ok_iff.mpr h]
  exact closed_ok a

end Closed

section Require

variable {P : CanonicalPlatform} {F : Type} {code message : String}

/-- A wrong type and a refused pattern both give the reader's own code. -/
theorem closed_requireText {pattern : String → Bool} (value : PyJson.Obj F) :
    Closed (requireText pattern code message value) := by
  unfold requireText
  split
  · split
    · exact closed_ok _
    · exact closed_fail _ _
  · exact closed_fail _ _

theorem closed_requireInt {low high : Nat} (value : PyJson.Obj F) :
    Closed (requireInt low high code message value) := by
  unfold requireInt
  split
  · split
    · exact closed_ite (fun _ => closed_ok _) fun _ => closed_fail _ _
    · exact closed_fail _ _
  · exact closed_fail _ _

theorem closed_requireExporters (values : List (PyJson.Obj F)) : Closed (requireExporters values) := by
  induction values with
  | nil => exact closed_ok _
  | cons value rest ih =>
      rw [requireExporters]
      exact closed_bind (closed_requireText value) fun _ _ =>
        closed_bind ih fun _ _ => closed_ok _

theorem closed_requireScope (value : PyJson.Obj F) : Closed (requireScope value) := by
  unfold requireScope
  split
  · exact closed_ok _
  · exact closed_ok _
  · exact closed_fail _ _

theorem closed_requireTarget (scope : Scope) (value : PyJson.Obj F) :
    Closed (requireTarget scope value) := by
  cases scope with
  | target => exact closed_bind (closed_requireText value) fun _ _ => closed_ok _
  | installation =>
      unfold requireTarget
      split
      · exact closed_ok _
      · exact closed_fail _ _

theorem closed_requirePrivacy (value : PyJson.Obj F) : Closed (requirePrivacy value) := by
  unfold requirePrivacy
  split
  · exact closed_ok _
  · exact closed_ok _
  · exact closed_ok _
  · exact closed_fail _ _

/-- Building a header raises a coded error for every object with the right keys. -/
theorem closed_makeHeader (members : List (List CodePoint × PyJson.Obj F))
    (exporters : List (PyJson.Obj F)) : Closed (makeHeader members exporters) := by
  unfold makeHeader
  refine closed_bind (closed_requireText _) fun _ _ => ?_
  refine closed_bind (closed_requireText _) fun _ _ => ?_
  refine closed_bind (closed_requireScope _) fun _ _ => ?_
  refine closed_bind (closed_requireTarget _ _) fun _ _ => ?_
  refine closed_bind (closed_requirePrivacy _) fun _ _ => ?_
  refine closed_bind (closed_requireInt _) fun _ _ => ?_
  refine closed_bind (closed_requireExporters _) fun _ _ => ?_
  split
  · refine closed_bind (closed_requireInt _) fun _ _ => ?_
    exact closed_bind (closed_requireText _) fun _ _ => closed_ok _
  · exact closed_fail _ _

/-- A frame that was read is built again without an error escaping. -/
theorem closed_makeFrame (batchId sequence : PyJson.Obj F) (record : FinalizedRecord P) :
    Closed (makeFrame batchId sequence record) := by
  unfold makeFrame
  refine closed_bind (closed_requireText _) fun _ _ => ?_
  exact closed_bind (closed_requireInt _) fun _ _ => closed_ok _

end Require

section Reader

variable {P : CanonicalPlatform} (wire : WireRuntime P) {line : Bytes}

/-- A line that is not UTF-8, not JSON or no object gives the code it was read under. -/
theorem closed_jsonObject (line : Bytes) (code : String) : Closed (jsonObject wire line code) := by
  unfold jsonObject
  split
  · exact closed_ok _
  · exact closed_fail _ _

/-- A header line within its bound is parsed or refused with a code, whatever its bytes. -/
theorem closed_parseHeader (hline : Lines.IsLine lineFeed line)
    (hbound : line.length ≤ maxHeaderLineBytes) : Closed (parseHeader wire line) := by
  unfold parseHeader
  refine closed_bind (closed_jsonObject wire _ _) fun members hmembers => ?_
  refine closed_ite (fun _ => closed_fail_bind) fun hkeys => ?_
  refine closed_ite (fun _ => closed_fail_bind) fun _ => ?_
  split
  · rename_i exporters hexporters
    refine closed_bind (closed_makeHeader _ _) fun header hheader => ?_
    -- the header takes no more bytes than the line, and so it has a line of its own
    have hspelled := (spelled_le_line wire hline hmembers).trans (Nat.sub_le_sub_right hbound 1)
    obtain ⟨written, hwritten⟩ := spoolSegmentHeaderLine_of_read (P := P) (by simpa using hkeys)
      (makeHeader_eq_ok_iff.mp hheader) hexporters hspelled
    refine closed_bind (closed_encoded hwritten) fun _ _ => ?_
    exact closed_ite (fun _ => closed_fail _ _) fun _ => closed_ok _
  · exact closed_fail _ _

/-- A record payload is rebuilt or refused with a code. -/
theorem closed_reconstructRecord (payload : List (List CodePoint × PyJson.Obj P.Float)) :
    Closed (reconstructRecord wire payload) := by
  unfold reconstructRecord
  split
  · exact closed_ok _
  · exact closed_fail _ _

/-- Parsing a frame line is closed: every check raises the reader's own code. -/
theorem closed_parseFrame (header : SegmentHeaderV1) (sequence : Nat) :
    Closed (parseFrame wire line header sequence) := by
  unfold parseFrame
  refine closed_bind (closed_jsonObject wire _ _) fun members _ => ?_
  refine closed_ite (fun _ => closed_fail_bind) fun _ => ?_
  refine closed_ite (fun _ => closed_fail_bind) fun _ => ?_
  split
  · refine closed_bind (closed_reconstructRecord wire _) fun record _ => ?_
    refine closed_bind (closed_makeFrame _ _ _) fun frame _ => ?_
    refine closed_ite (fun _ => closed_fail _ _) fun _ => ?_
    refine closed_ite (fun _ => closed_fail _ _) fun _ => ?_
    refine closed_ite (fun _ => closed_fail _ _) fun _ => ?_
    refine closed_ite (fun _ => closed_fail _ _) fun _ => ?_
    refine closed_ite (fun _ => closed_fail _ _) fun _ => ?_
    refine closed_ite (fun _ => closed_fail _ _) fun _ => ?_
    obtain ⟨written, hwritten⟩ := spoolFrameLine_ok frame
    refine closed_bind (closed_encoded hwritten) fun _ _ => ?_
    exact closed_ite (fun _ => closed_fail _ _) fun _ => closed_ok _
  · exact closed_fail _ _

/-- So are all the frame lines of a segment. -/
theorem closed_parseFrames (header : SegmentHeaderV1) (sequence : Nat) (lines : List Bytes) :
    Closed (parseFrames wire header sequence lines) := by
  induction lines generalizing sequence with
  | nil => exact closed_ok _
  | cons line rest ih =>
      rw [parseFrames]
      exact closed_bind (closed_parseFrame wire header sequence) fun _ _ =>
        closed_bind (ih _) fun _ _ => closed_ok _

/-! ## Lines -/

theorem closed_checkLine (limit : Nat) (line : Bytes) : Closed (checkLine limit line) :=
  closed_ite (fun _ => closed_fail _ _) fun _ =>
    closed_ite (fun _ => closed_fail _ _) fun _ => closed_ok _

/-- The checks of the lines raise the reader's own codes only. -/
theorem closed_checkLines (lines : List Bytes) : Closed (checkLines lines) := by
  induction lines with
  | nil => exact closed_ok _
  | cons line rest ih => exact closed_bind (closed_checkLine _ line) fun _ _ => ih

/-- Cutting a content into lines fails with a code or gives lines within their bounds. -/
theorem closed_splitLines (content : Bytes) : Closed (splitLines content) := by
  unfold splitLines
  refine closed_ite (fun _ => closed_fail _ _) fun _ => ?_
  split
  · exact closed_fail _ _
  · exact closed_bind (closed_checkLine _ _) fun _ _ =>
      closed_bind (closed_checkLines _) fun _ _ => closed_ok _
  · exact closed_fail _ _

/-- What the reader checked of the lines of a content. -/
theorem splitLines_ok {content headerLine : Bytes} {frameLines : List Bytes}
    (h : splitLines content = .ok (headerLine, frameLines)) :
    content.length ≤ maxSegmentFileBytes ∧
      Lines.cut lineFeed content = (headerLine :: frameLines, []) ∧
      headerLine.length ≤ maxHeaderLineBytes := by
  unfold splitLines at h
  split at h
  · cases h
  · rename_i hsize
    split at h
    · cases h
    · rename_i first rest hcut
      obtain ⟨⟨⟩, hfirst, h⟩ := Except.bind_eq_ok_iff.mp h
      obtain ⟨⟨⟩, -, h⟩ := Except.bind_eq_ok_iff.mp h
      obtain ⟨rfl, rfl⟩ := Prod.mk.inj (Except.ok.inj h)
      refine ⟨Nat.le_of_not_lt hsize, hcut, ?_⟩
      unfold checkLine at hfirst
      split at hfirst
      · cases hfirst
      · split at hfirst
        · cases hfirst
        · rename_i hle
          exact Nat.le_of_not_lt hle
    · cases h

/-- The lines of a content are lines, and the content is nothing else. -/
theorem lines_of_cut {content headerLine : Bytes} {frameLines : List Bytes}
    (h : Lines.cut lineFeed content = (headerLine :: frameLines, [])) :
    Lines.IsLine lineFeed headerLine ∧ content = headerLine ++ frameLines.flatten := by
  have hlines := @Lines.isLine_of_mem_cut _ lineFeed _ content
  have happend := @Lines.cut_append _ lineFeed _ content
  rw [h] at hlines happend
  rw [List.flatten_cons, List.append_nil] at happend
  exact ⟨hlines headerLine List.mem_cons_self, happend.symm⟩

/-- **No content makes the reader fail but with an error of the spool.** -/
theorem closed_parseSegmentBytes (content : Bytes) : Closed (parseSegmentBytes wire content) := by
  unfold parseSegmentBytes
  refine closed_bind (closed_splitLines content) fun lines hlines => ?_
  obtain ⟨headerLine, frameLines⟩ := lines
  obtain ⟨-, hcut, hbound⟩ := splitLines_ok hlines
  refine closed_ite (fun _ => closed_fail_bind) fun _ => ?_
  refine closed_bind (closed_parseHeader wire (lines_of_cut hcut).1 hbound) fun header _ => ?_
  refine closed_bind (closed_parseFrames wire header 1 frameLines) fun frames _ => ?_
  refine closed_ite (fun _ => closed_fail_bind) fun _ => ?_
  exact closed_ite (fun _ => closed_fail_bind) fun _ => closed_ok _

/-! ## What was accepted -/

/-- A header that was parsed is written back as its line. -/
theorem parseHeader_ok {header : SegmentHeaderV1} (h : parseHeader wire line = .ok header) :
    spoolSegmentHeaderLine P.runtime header = .ok line := by
  unfold parseHeader at h
  obtain ⟨members, -, h⟩ := Except.bind_eq_ok_iff.mp h
  obtain ⟨-, h⟩ := passed_check h
  obtain ⟨-, h⟩ := passed_check h
  split at h
  · obtain ⟨made, -, h⟩ := Except.bind_eq_ok_iff.mp h
    obtain ⟨written, hwritten, h⟩ := Except.bind_eq_ok_iff.mp h
    obtain ⟨hsame, h⟩ := passed_last h
    obtain rfl := Except.ok.inj h
    rw [encoded_eq_ok_iff.mp hwritten, Decidable.not_not.mp hsame]
  · cases h

/-- A frame that was accepted is written as its line, and passes the checks of the writer. -/
theorem parseFrame_ok {header : SegmentHeaderV1} {sequence : Nat} {frame : SpoolFrameV1 P}
    (h : parseFrame wire line header sequence = .ok frame) :
    spoolFrameLine frame = .ok line ∧ checkFrame header sequence frame = .ok () := by
  unfold parseFrame at h
  obtain ⟨members, -, h⟩ := Except.bind_eq_ok_iff.mp h
  obtain ⟨-, h⟩ := passed_check h
  obtain ⟨-, h⟩ := passed_check h
  split at h
  · obtain ⟨record, -, h⟩ := Except.bind_eq_ok_iff.mp h
    obtain ⟨made, hmade, h⟩ := Except.bind_eq_ok_iff.mp h
    obtain ⟨-, -, hrecord⟩ := makeFrame_eq_ok_iff.mp hmade
    obtain ⟨hsequence, h⟩ := passed_last h
    obtain ⟨hbatch, h⟩ := passed_last h
    obtain ⟨-, h⟩ := passed_last h
    obtain ⟨hscope, h⟩ := passed_last h
    obtain ⟨htarget, h⟩ := passed_last h
    obtain ⟨hprivacy, h⟩ := passed_last h
    obtain ⟨written, hwritten, h⟩ := Except.bind_eq_ok_iff.mp h
    obtain ⟨hsame, h⟩ := passed_last h
    obtain rfl := Except.ok.inj h
    refine ⟨?_, ?_⟩
    · rw [encoded_eq_ok_iff.mp hwritten, Decidable.not_not.mp hsame]
    · unfold checkFrame
      rw [hrecord, if_neg hsequence, if_neg hbatch, if_neg hscope, if_neg htarget, if_neg hprivacy]
  · cases h

/-- Frames that were parsed are written back as their lines, and agree with the header. -/
theorem parseFrames_ok {header : SegmentHeaderV1} {sequence : Nat} {lines : List Bytes}
    {frames : List (SpoolFrameV1 P)} (h : parseFrames wire header sequence lines = .ok frames) :
    List.Forall₂ (fun frame line => spoolFrameLine frame = .ok line) frames lines ∧
      checkFrames header sequence frames = .ok () := by
  induction lines generalizing sequence frames with
  | nil =>
      obtain rfl := Except.ok.inj h
      exact ⟨.nil, rfl⟩
  | cons line rest ih =>
      rw [parseFrames] at h
      obtain ⟨frame, hframe, h⟩ := Except.bind_eq_ok_iff.mp h
      obtain ⟨others, hothers, h⟩ := Except.bind_eq_ok_iff.mp h
      obtain rfl := Except.ok.inj h
      obtain ⟨hline, hcheck⟩ := parseFrame_ok wire hframe
      obtain ⟨hlines, hchecks⟩ := ih hothers
      refine ⟨.cons hline hlines, ?_⟩
      rw [checkFrames]
      exact Except.bind_eq_ok_iff.mpr ⟨(), hcheck, hchecks⟩

/-- Frames are written as their lines, where these fit. -/
theorem encodeFrames_of_lines {frames : List (SpoolFrameV1 P)} {lines : List Bytes} {total : Nat}
    (h : List.Forall₂ (fun frame line => spoolFrameLine frame = .ok line) frames lines)
    (hfits : total + lines.flatten.length ≤ maxSegmentFileBytes) :
    encodeFrames total frames = .ok lines := by
  induction h generalizing total with
  | nil => rfl
  | @cons frame line frames lines hline _ ih =>
      rw [List.flatten_cons, List.length_append] at hfits
      rw [encodeFrames]
      refine Except.bind_eq_ok_iff.mpr ⟨line, encoded_eq_ok_iff.mpr hline, ?_⟩
      rw [if_neg (by omega)]
      exact Except.bind_eq_ok_iff.mpr ⟨lines, ih (by omega), rfl⟩

/-- A segment is built of lines that the header describes and that fit. -/
theorem buildSegmentBytes_of {header : SegmentHeaderV1} {frames : List (SpoolFrameV1 P)}
    {headerLine : Bytes} {lines : List Bytes}
    (hheader : spoolSegmentHeaderLine P.runtime header = .ok headerLine)
    (hlines : List.Forall₂ (fun frame line => spoolFrameLine frame = .ok line) frames lines)
    (hfits : headerLine.length + lines.flatten.length ≤ maxSegmentFileBytes)
    (hadmitted : frames.length ≤ maxSegmentFrames) (hcount : header.recordCount = frames.length)
    (hchecks : checkFrames header 1 frames = .ok ())
    (hdigest : spoolContentSha256 wire lines = header.contentSha256) :
    buildSegmentBytes wire header frames = .ok (headerLine ++ lines.flatten) := by
  have hconsistent : validateConsistency header frames = .ok () := by
    unfold validateConsistency
    rw [if_neg (fun hne => hne hcount)]
    exact hchecks
  unfold buildSegmentBytes
  rw [if_neg (Nat.not_lt.mpr hadmitted)]
  refine Except.bind_eq_ok_iff.mpr ⟨(), hconsistent, ?_⟩
  refine Except.bind_eq_ok_iff.mpr ⟨headerLine, encoded_eq_ok_iff.mpr hheader, ?_⟩
  refine Except.bind_eq_ok_iff.mpr ⟨lines, encodeFrames_of_lines hlines hfits, ?_⟩
  exact if_neg fun hne => hne hdigest

/-- What a parsed segment was made of. -/
theorem parseSegmentBytes_ok {content : Bytes} {segment : ParsedSegment (SpoolFrameV1 P)}
    (h : parseSegmentBytes wire content = .ok segment) :
    ∃ headerLine frameLines, splitLines content = .ok (headerLine, frameLines) ∧
      parseHeader wire headerLine = .ok segment.header ∧
      parseFrames wire segment.header 1 frameLines = .ok segment.frames ∧
      frameLines.length ≤ maxSegmentFrames ∧
      segment.frames.length = segment.header.recordCount ∧
      spoolContentSha256 wire frameLines = segment.header.contentSha256 ∧
      segment.byteSize = content.length ∧ segment.fileSha256 = wire.hexdigest content := by
  unfold parseSegmentBytes at h
  obtain ⟨⟨headerLine, frameLines⟩, hlines, h⟩ := Except.bind_eq_ok_iff.mp h
  dsimp only at h
  obtain ⟨hadmitted, h⟩ := passed_check h
  obtain ⟨header, hheader, h⟩ := Except.bind_eq_ok_iff.mp h
  obtain ⟨frames, hframes, h⟩ := Except.bind_eq_ok_iff.mp h
  obtain ⟨hcount, h⟩ := passed_check h
  obtain ⟨hdigest, h⟩ := passed_check h
  obtain rfl := Except.ok.inj h
  exact ⟨headerLine, frameLines, hlines, hheader, hframes, Nat.le_of_not_lt hadmitted,
    Decidable.not_not.mp hcount, Decidable.not_not.mp hdigest, rfl, rfl⟩

/-- **What the reader accepts is what the writer builds** from the header and the frames it read,
and it reports the size and the digest of that content. -/
theorem build_of_parse {content : Bytes} {segment : ParsedSegment (SpoolFrameV1 P)}
    (h : parseSegmentBytes wire content = .ok segment) :
    buildSegmentBytes wire segment.header segment.frames = .ok content ∧
      segment.byteSize = content.length ∧ segment.fileSha256 = wire.hexdigest content := by
  obtain ⟨headerLine, frameLines, hsplit, hheader, hframes, hadmitted, hcount, hdigest, hsize,
    hsha256⟩ := parseSegmentBytes_ok wire h
  obtain ⟨hfits, hcut, -⟩ := splitLines_ok hsplit
  obtain ⟨-, hcontent⟩ := lines_of_cut hcut
  obtain ⟨hlines, hchecks⟩ := parseFrames_ok wire hframes
  have hlength := hlines.length_eq
  refine ⟨?_, hsize, hsha256⟩
  unfold buildSegmentBytes
  rw [if_neg (by omega)]
  refine Except.bind_eq_ok_iff.mpr ⟨(), ?_, ?_⟩
  · unfold validateConsistency
    rw [if_neg (fun hne => hne hcount.symm)]
    exact hchecks
  refine Except.bind_eq_ok_iff.mpr
    ⟨headerLine, encoded_eq_ok_iff.mpr (parseHeader_ok wire hheader), ?_⟩
  refine Except.bind_eq_ok_iff.mpr ⟨frameLines, encodeFrames_of_lines hlines ?_, ?_⟩
  · rw [hcontent, List.length_append] at hfits
    exact hfits
  · rw [if_neg (fun hne => hne hdigest), hcontent]

end Reader

end Milhouse.Wire
