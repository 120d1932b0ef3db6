import Milhouse.Domain.Identity
import Milhouse.Lib.Lines
import Milhouse.Privacy.Views

/-!
# Milhouse — the writer and the reader of segment bytes

A segment file is the canonical line of its header and the canonical lines of its frames, in order.
`buildSegmentBytes` writes it from values that agree with each other. `parseSegmentBytes` is given
any bytes: it reads each line as loosely as `json.loads` does, and accepts the line only where the
values it made of it are written as that very line.

A failure is one of the fixed errors of the spool, or an error of the encoder or of an identity that
nothing caught; only the first is meant to leave the reader.
-/

namespace Milhouse.Wire

open Text

/-! ## Records and frames -/

/-- `mh_d1_[a-z2-7]{51}[aq]`. -/
def matchesDedupeKey (text : String) : Bool :=
  "mh_d1_".toList <+: text.toList && text.length = 58 && (text.toList.drop 6).all isBase32
    && (text.toList.getLast? = some 'a' || text.toList.getLast? = some 'q')

/-- A finalized record: one that passed its own validators. -/
structure FinalizedRecord (P : CanonicalPlatform) extends Domain.RecordEnvelopeV1 P where
  recordId_valid : matchesRecordId recordId = true
  dedupeKey_valid : matchesDedupeKey dedupeKey = true
  shaped : recordShape.Conforms (Domain.dump (Domain.envelopeFields P) toRecordEnvelopeV1)
  canonical : ∃ bytes, canonicalJsonBytes P.runtime recordLimits
    (Domain.dump (Domain.envelopeFields P) toRecordEnvelopeV1) = .ok bytes
  expiresAt_valid : draft.expiresAt < stampLimit

namespace FinalizedRecord

variable {P : CanonicalPlatform}

/-- `record.model_dump(mode="python", exclude_none=True)`. -/
def dump (record : FinalizedRecord P) : PyValue P.runtime.Float :=
  Domain.dump (Domain.envelopeFields P) record.toRecordEnvelopeV1

def scope (record : FinalizedRecord P) : Scope := record.draft.scope

/-- `record.target.id if record.target is not None else None`. -/
def targetId (record : FinalizedRecord P) : Option String := record.draft.target.map (·.id)

def privacyClass (record : FinalizedRecord P) : PrivacyClass := record.draft.privacyClass

def expiresAt (record : FinalizedRecord P) : Stamp := record.draft.expiresAt

end FinalizedRecord

/-- A frame that passed its checks. -/
structure SpoolFrameV1 (P : CanonicalPlatform) where
  batchId : String
  sequence : Nat
  record : FinalizedRecord P
  validBatchId : matchesBatchId batchId = true
  validSequence : 0 < sequence ∧ sequence ≤ maxCanonicalInt

/-- What leaves the wire when it fails. -/
inductive WireError where
  | spool (error : SpoolError)
  | canonicalization (error : CanonicalizationError)
  | identity (error : Domain.DomainError)

/-- `_fail`. -/
def fail {α : Type} (code message : String) : Except WireError α := .error (.spool ⟨code, message⟩)

/-- A call of the encoder. -/
def encoded {α : Type} (result : Except CanonicalizationError α) : Except WireError α :=
  result.mapError .canonicalization

/-- What the wire takes from outside. -/
structure WireRuntime (P : CanonicalPlatform) where
  /-- `json.loads` raises `RecursionError`. -/
  recursionError : List Char → Bool
  /-- `hashlib.sha256(content).digest()`. -/
  sha256 : Bytes → Bytes
  /-- `RecordEnvelopeV1.model_validate_json(json.dumps(payload))`, where neither raises. -/
  modelValidateJson : List (List CodePoint × PyJson.Obj P.Float) → Option (FinalizedRecord P)

/-- `hashlib.sha256(content).hexdigest()`. -/
def WireRuntime.hexdigest {P : CanonicalPlatform} (wire : WireRuntime P) (content : Bytes) : String :=
  String.ofList (Radix.hex (wire.sha256 content))

def lineFeed : UInt8 := 10

/-! ## The lines -/

/-- The limits of a line of so many bytes, its line feed among them. -/
def lineLimits (bound : Nat) : CanonicalLimits := ⟨defaultMaxDepth, defaultMaxNodes, bound - 1⟩

section Lines

variable {P : CanonicalPlatform}

def framePayload (frame : SpoolFrameV1 P) : List (String × PyValue P.runtime.Float) :=
  [("batch_id", .str frame.batchId), ("frame_version", .int frameVersion),
    ("record", frame.record.dump), ("record_id", .str frame.record.recordId),
    ("sequence", .int frame.sequence)]

/-- `spool_frame_line`. -/
def spoolFrameLine (frame : SpoolFrameV1 P) : Except CanonicalizationError Bytes :=
  (canonicalJsonBytes P.runtime (lineLimits maxFrameLineBytes) (.dict (framePayload frame))).map
    (· ++ [lineFeed])

def headerPayload (rt : CanonicalRuntime) (header : SegmentHeaderV1) :
    List (String × PyValue rt.Float) :=
  [("batch_id", .str header.batchId), ("config_generation", .str header.configGeneration),
    ("content_sha256", .str header.contentSha256), ("frame_version", .int frameVersion),
    ("privacy_class", .str (Domain.privacyClassText header.privacyClass)),
    ("record_count", .int header.recordCount),
    ("required_exporters", .list (header.requiredExporters.map .str)),
    ("retention_days", .int header.retentionDays), ("schema", .int schemaVersion),
    ("scope", .str (Domain.scopeText header.scope)),
    ("target_id", (header.targetId.map .str).getD .none)]

/-- `spool_segment_header_line`. -/
def spoolSegmentHeaderLine (rt : CanonicalRuntime) (header : SegmentHeaderV1) :
    Except CanonicalizationError Bytes :=
  (canonicalJsonBytes rt (lineLimits maxHeaderLineBytes) (.dict (headerPayload rt header))).map
    (· ++ [lineFeed])

/-! ## Writing -/

/-- The checks of one frame in `_validate_consistency`. -/
def checkFrame (header : SegmentHeaderV1) (index : Nat) (frame : SpoolFrameV1 P) :
    Except WireError Unit :=
  if frame.sequence ≠ index then
    fail "MH_SPOOL_SEQUENCE" "frame sequences must be contiguous from 1"
  else if frame.batchId ≠ header.batchId then
    fail "MH_SPOOL_BATCH_ID" "each frame batch id must match the header"
  else if frame.record.scope ≠ header.scope then
    fail "MH_SPOOL_SCOPE" "each frame scope must match the header"
  else if frame.record.targetId ≠ header.targetId then
    fail "MH_SPOOL_TARGET" "each frame target must match the header"
  else if frame.record.privacyClass ≠ header.privacyClass then
    fail "MH_SPOOL_PRIVACY" "each frame privacy class must match the header"
  else .ok ()

def checkFrames (header : SegmentHeaderV1) : Nat → List (SpoolFrameV1 P) → Except WireError Unit
  | _, [] => .ok ()
  | index, frame :: rest => do
      checkFrame header index frame
      checkFrames header (index + 1) rest

/-- `_validate_consistency`. -/
def validateConsistency (header : SegmentHeaderV1) (frames : List (SpoolFrameV1 P)) :
    Except WireError Unit :=
  if header.recordCount ≠ frames.length then
    fail "MH_SPOOL_COUNT" "the header record count must equal the frame count"
  else checkFrames header 1 frames

/-- The loop over the frames: their lines, as long as the segment stays within its bound. -/
def encodeFrames : Nat → List (SpoolFrameV1 P) → Except WireError (List Bytes)
  | _, [] => .ok []
  | total, frame :: rest => do
      let line ← encoded (spoolFrameLine frame)
      if maxSegmentFileBytes < total + line.length then
        fail "MH_SPOOL_SIZE" "the segment exceeds the maximum size"
      let lines ← encodeFrames (total + line.length) rest
      .ok (line :: lines)

end Lines

section Runtime

variable {P : CanonicalPlatform} (wire : WireRuntime P)

/-- `spool_content_sha256`. -/
def spoolContentSha256 (frameLines : List Bytes) : String := wire.hexdigest frameLines.flatten

/-- `build_segment_bytes`. -/
def buildSegmentBytes (header : SegmentHeaderV1) (frames : List (SpoolFrameV1 P)) :
    Except WireError Bytes := do
  if maxSegmentFrames < frames.length then
    fail "MH_SPOOL_COUNT" "the segment contains more frames than the writer admits"
  validateConsistency header frames
  let headerLine ← encoded (spoolSegmentHeaderLine P.runtime header)
  let frameLines ← encodeFrames headerLine.length frames
  if spoolContentSha256 wire frameLines ≠ header.contentSha256 then
    fail "MH_SPOOL_DIGEST" "the header digest does not match the frame bytes"
  .ok (headerLine ++ frameLines.flatten)

/-! ## The values of a line -/

variable {F : Type}

/-- `obj[name]`, of a key that is there. -/
def item (members : List (List CodePoint × PyJson.Obj F)) (name : String) : PyJson.Obj F :=
  (members.lookup (name.toList.map ofChar)).getD .none

/-- `frozenset(obj) == names`. -/
def hasKeys (members : List (List CodePoint × PyJson.Obj F)) (names : List String) : Bool :=
  members.all (fun m => names.any fun name => m.1 = name.toList.map ofChar) &&
    names.all fun name => members.any fun m => m.1 = name.toList.map ofChar

/-- A value that is text; a lone surrogate has no place in any text that is accepted. -/
def textOf : PyJson.Obj F → Option String
  | .str text => (Text.scalars text).map String.ofList
  | _ => none

/-- `value == number`. -/
def equalsInt (value : PyJson.Obj P.Float) (number : Int) : Bool :=
  match value with
  | .bool flag => number = if flag then 1 else 0
  | .int n => n = number
  | .float x => P.isFinite x && P.integral x = some number
  | _ => false

def headerKeys : List String :=
  ["batch_id", "config_generation", "content_sha256", "frame_version", "privacy_class",
    "record_count", "required_exporters", "retention_days", "schema", "scope", "target_id"]

def frameKeys : List String := ["batch_id", "frame_version", "record", "record_id", "sequence"]

/-- A check for text that a pattern matches in full. -/
def requireText (pattern : String → Bool) (code message : String) (value : PyJson.Obj F) :
    Except WireError { text : String // pattern text = true } :=
  match textOf value with
  | some text =>
      if h : pattern text = true then .ok ⟨text, h⟩ else fail code message
  | none => fail code message

/-- A check for an integer, `bool` not being one, within bounds. -/
def requireInt (low high : Nat) (code message : String) (value : PyJson.Obj F) :
    Except WireError { n : Nat // low ≤ n ∧ n ≤ high } :=
  match value with
  | .int n =>
      if h : low ≤ n.toNat ∧ n.toNat ≤ high then
        if 0 ≤ n then .ok ⟨n.toNat, h⟩ else fail code message
      else fail code message
  | _ => fail code message

def requireScope (value : PyJson.Obj F) : Except WireError Scope :=
  match textOf value with
  | some "installation" => .ok .installation
  | some "target" => .ok .target
  | _ => fail "MH_SPOOL_SCOPE" "an installation or target scope is required"

/-- The scopes that can have a target. -/
def targetFits : Scope → Option String → Bool
  | .target, some target => matchesTargetId target
  | .installation, none => true
  | _, _ => false

def requireTarget (scope : Scope) (value : PyJson.Obj F) :
    Except WireError { target : Option String // targetFits scope target = true } :=
  match scope with
  | .target => do
      let target ← requireText matchesTargetId "MH_SPOOL_TARGET"
        "target scope requires a bounded target id" value
      .ok ⟨some target.1, target.2⟩
  | .installation =>
      match value with
      | .none => .ok ⟨none, rfl⟩
      | _ => fail "MH_SPOOL_TARGET" "installation scope forbids a target id"

def requirePrivacy (value : PyJson.Obj F) :
    Except WireError { privacy : PrivacyClass // privacy ≠ .restricted } :=
  match textOf value with
  | some "public" => .ok ⟨.public, nofun⟩
  | some "internal" => .ok ⟨.internal, nofun⟩
  | some "sensitive" => .ok ⟨.sensitive, nofun⟩
  | _ => fail "MH_SPOOL_PRIVACY" "a non-restricted privacy class is required"

def requireExporters : List (PyJson.Obj F) →
    Except WireError { ids : List String // ids.all matchesExporterId = true }
  | [] => .ok ⟨[], rfl⟩
  | value :: rest => do
      let first ← requireText matchesExporterId "MH_SPOOL_EXPORTERS"
        "each exporter id must be bounded safe text" value
      let ids ← requireExporters rest
      .ok ⟨first.1 :: ids.1, by rw [List.all_cons, first.2, ids.2]; rfl⟩

/-- What `__post_init__` checks of a header. -/
structure FieldsValid (h : HeaderFields) : Prop where
  batchId : matchesBatchId h.batchId = true
  configGeneration : matchesSha256 h.configGeneration = true
  targetId : targetFits h.scope h.targetId = true
  privacyClass : h.privacyClass ≠ .restricted
  retentionDays : 1 ≤ h.retentionDays ∧ h.retentionDays ≤ maxRetentionDays
  exporterIds : h.requiredExporters.all matchesExporterId = true
  sorted : strictlySorted h.requiredExporters = true
  recordCount : 0 ≤ h.recordCount ∧ h.recordCount ≤ maxCanonicalInt
  contentSha256 : matchesSha256 h.contentSha256 = true

theorem FieldsValid.check {h : HeaderFields} (hv : FieldsValid h) : h.check = .ok () := by
  unfold HeaderFields.check
  have hrange :
      (decide (0 < h.retentionDays) && decide (h.retentionDays ≤ maxRetentionDays)) = true :=
    Bool.and_eq_true_iff.mpr ⟨decide_eq_true hv.retentionDays.1, decide_eq_true hv.retentionDays.2⟩
  have htarget := hv.targetId
  rw [hv.batchId, hv.configGeneration, hv.exporterIds, hv.sorted, hv.contentSha256, hrange,
    decide_eq_true hv.recordCount.2]
  unfold targetFits at htarget
  split at htarget
  · rename_i target hscope htargetId
    rw [hscope, htargetId]
    dsimp only
    rw [htarget, if_neg hv.privacyClass]
    rfl
  · rename_i hscope htargetId
    rw [hscope, htargetId]
    dsimp only
    rw [if_neg hv.privacyClass]
    rfl
  · cases htarget

theorem fieldsValid_of_check {h : HeaderFields} (hcheck : h.check = .ok ()) : FieldsValid h := by
  -- a check that fails raises, so each one is seen to hold before the next is reached
  unfold HeaderFields.check at hcheck
  cases hbatch : matchesBatchId h.batchId with
  | false => rw [hbatch] at hcheck; cases hcheck
  | true =>
  cases hconfig : matchesSha256 h.configGeneration with
  | false => rw [hbatch, hconfig] at hcheck; cases hcheck
  | true =>
  rw [hbatch, hconfig] at hcheck
  have hfits : targetFits h.scope h.targetId = true := by
    cases hscope : h.scope with
    | target =>
        cases htarget : h.targetId with
        | none => rw [hscope, htarget] at hcheck; cases hcheck
        | some target =>
            rw [hscope, htarget] at hcheck
            dsimp only at hcheck
            cases hmatches : matchesTargetId target with
            | false => rw [hmatches] at hcheck; cases hcheck
            | true => exact hmatches
    | installation =>
        cases htarget : h.targetId with
        | none => rfl
        | some target => rw [hscope, htarget] at hcheck; cases hcheck
  have hreach : h.privacyClass ≠ .restricted ∧
      (1 ≤ h.retentionDays ∧ h.retentionDays ≤ maxRetentionDays) ∧
      h.requiredExporters.all matchesExporterId = true ∧
      strictlySorted h.requiredExporters = true ∧ h.recordCount ≤ maxCanonicalInt ∧
      matchesSha256 h.contentSha256 = true := by
    cases hscope : h.scope <;> cases htarget : h.targetId <;>
      rw [hscope, htarget] at hcheck hfits <;> try cases hfits
    case' target.some target =>
      dsimp only at hcheck
      rw [show matchesTargetId target = true from hfits] at hcheck
    all_goals
      by_cases hprivacy : h.privacyClass = .restricted
      · rw [if_pos hprivacy] at hcheck; cases hcheck
      rw [if_neg hprivacy] at hcheck
      cases hretention : decide (0 < h.retentionDays) && decide (h.retentionDays ≤ maxRetentionDays)
      · rw [hretention] at hcheck; cases hcheck
      rw [hretention] at hcheck
      cases hids : h.requiredExporters.all matchesExporterId
      · rw [hids] at hcheck; cases hcheck
      cases hsorted : strictlySorted h.requiredExporters
      · rw [hids, hsorted] at hcheck; cases hcheck
      rw [hids, hsorted] at hcheck
      cases hcount : decide (h.recordCount ≤ maxCanonicalInt)
      · rw [hcount] at hcheck; cases hcheck
      cases hdigest : matchesSha256 h.contentSha256
      · rw [hcount, hdigest] at hcheck; cases hcheck
      rw [Bool.and_eq_true, decide_eq_true_eq, decide_eq_true_eq] at hretention
      exact ⟨hprivacy, hretention, rfl, rfl, of_decide_eq_true hcount, rfl⟩
  obtain ⟨hprivacy, hretention, hids, hsorted, hcount, hdigest⟩ := hreach
  exact ⟨hbatch, hconfig, hfits, hprivacy, hretention, hids, hsorted, ⟨Nat.zero_le _, hcount⟩, hdigest⟩

/-- `SegmentHeaderV1(...)` of the values of a line, check by check. -/
def makeHeader (members : List (List CodePoint × PyJson.Obj F)) (exporters : List (PyJson.Obj F)) :
    Except WireError SegmentHeaderV1 := do
  let batchId ← requireText matchesBatchId "MH_SPOOL_BATCH_ID" "a bounded safe batch id is required"
    (item members "batch_id")
  let configGeneration ← requireText matchesSha256 "MH_SPOOL_CONFIG_GENERATION"
    "a 64-hex configuration-generation digest is required" (item members "config_generation")
  let scope ← requireScope (item members "scope")
  let targetId ← requireTarget scope (item members "target_id")
  let privacyClass ← requirePrivacy (item members "privacy_class")
  let retentionDays ← requireInt 1 maxRetentionDays "MH_SPOOL_RETENTION"
    "a bounded positive retention is required" (item members "retention_days")
  let ids ← requireExporters exporters
  if hsorted : strictlySorted ids.1 = true then
    let recordCount ← requireInt 0 maxCanonicalInt "MH_SPOOL_COUNT"
      "a bounded record count is required" (item members "record_count")
    let contentSha256 ← requireText matchesSha256 "MH_SPOOL_DIGEST"
      "a lowercase hex sha-256 digest is required" (item members "content_sha256")
    .ok
      { batchId := batchId.1
        configGeneration := configGeneration.1
        scope
        targetId := targetId.1
        privacyClass := privacyClass.1
        retentionDays := retentionDays.1
        requiredExporters := ids.1
        recordCount := recordCount.1
        contentSha256 := contentSha256.1
        valid := FieldsValid.check ⟨batchId.2, configGeneration.2, targetId.2, privacyClass.2,
          retentionDays.2, ids.2, hsorted, recordCount.2, contentSha256.2⟩ }
  else fail "MH_SPOOL_EXPORTERS" "required exporters must be sorted and unique"

/-- `SpoolFrameV1(...)` of a batch id, a sequence and a record. -/
def makeFrame (batchId sequence : PyJson.Obj F) (record : FinalizedRecord P) :
    Except WireError (SpoolFrameV1 P) := do
  let batchId ← requireText matchesBatchId "MH_SPOOL_BATCH_ID" "a bounded safe batch id is required"
    batchId
  let sequence ← requireInt 1 maxCanonicalInt "MH_SPOOL_SEQUENCE"
    "a positive signed-64 sequence is required" sequence
  .ok ⟨batchId.1, sequence.1, record, batchId.2, sequence.2⟩

/-! ## Reading -/

/-- `line.decode("utf-8")`. -/
def decodeLine (line : Bytes) : Option (List Char) := Redact.decodeUtf8 line.length line

/-- `_json_object`. -/
def jsonObject (line : Bytes) (code : String) :
    Except WireError (List (List CodePoint × PyJson.Obj P.Float)) :=
  match (decodeLine line).bind fun text =>
    if wire.recursionError text then none else @PyJson.loads P.floats text with
  | some (.dict members) => .ok members
  | _ => fail code "a canonical JSON object line is required"

/-- `_reconstruct_record`. -/
def reconstructRecord (payload : List (List CodePoint × PyJson.Obj P.Float)) :
    Except WireError (FinalizedRecord P) :=
  match wire.modelValidateJson payload with
  | some record => .ok record
  | none => fail "MH_SPOOL_RECORD" "a finalized record envelope is required"

/-- `_parse_header`. -/
def parseHeader (line : Bytes) : Except WireError SegmentHeaderV1 := do
  let members ← jsonObject wire line "MH_SPOOL_HEADER"
  if !hasKeys members headerKeys then
    fail "MH_SPOOL_HEADER" "the header line has unexpected fields"
  if !(equalsInt (item members "schema") schemaVersion
      && equalsInt (item members "frame_version") frameVersion) then
    fail "MH_SPOOL_HEADER" "an unsupported segment schema or frame version"
  match item members "required_exporters" with
  | .list exporters =>
      let header ← makeHeader members exporters
      let written ← encoded (spoolSegmentHeaderLine P.runtime header)
      if written ≠ line then fail "MH_SPOOL_HEADER" "the header line is not canonical"
      else .ok header
  | _ => fail "MH_SPOOL_HEADER" "required exporters must be a list"

/-- `_parse_frame`. -/
def parseFrame (line : Bytes) (header : SegmentHeaderV1) (expectedSequence : Nat) :
    Except WireError (SpoolFrameV1 P) := do
  let members ← jsonObject wire line "MH_SPOOL_FRAME"
  if !hasKeys members frameKeys then
    fail "MH_SPOOL_FRAME" "the frame line has unexpected fields"
  if !equalsInt (item members "frame_version") frameVersion then
    fail "MH_SPOOL_FRAME" "an unsupported frame version"
  match item members "record" with
  | .dict payload =>
      let record ← reconstructRecord wire payload
      let frame ← makeFrame (item members "batch_id") (item members "sequence") record
      if frame.sequence ≠ expectedSequence then
        fail "MH_SPOOL_SEQUENCE" "frame sequences must be contiguous from 1"
      else if frame.batchId ≠ header.batchId then
        fail "MH_SPOOL_BATCH_ID" "each frame batch id must match the header"
      else if textOf (item members "record_id") ≠ some record.recordId then
        fail "MH_SPOOL_RECORD" "the frame record id must match its record"
      else if record.scope ≠ header.scope then
        fail "MH_SPOOL_SCOPE" "each frame scope must match the header"
      else if record.targetId ≠ header.targetId then
        fail "MH_SPOOL_TARGET" "each frame target must match the header"
      else if record.privacyClass ≠ header.privacyClass then
        fail "MH_SPOOL_PRIVACY" "each frame privacy class must match the header"
      else do
        let written ← encoded (spoolFrameLine frame)
        if written ≠ line then fail "MH_SPOOL_FRAME" "the frame line is not canonical"
        else .ok frame
  | _ => fail "MH_SPOOL_FRAME" "the frame record must be a JSON object"

/-- The frames of the lines, numbered from `sequence`. -/
def parseFrames (header : SegmentHeaderV1) : Nat → List Bytes →
    Except WireError (List (SpoolFrameV1 P))
  | _, [] => .ok []
  | sequence, line :: rest => do
      let frame ← parseFrame wire line header sequence
      let frames ← parseFrames header (sequence + 1) rest
      .ok (frame :: frames)

/-- The checks of one line in `_split_lines`. -/
def checkLine (limit : Nat) (line : Bytes) : Except WireError Unit :=
  if line = [lineFeed] then fail "MH_SPOOL_TRUNCATED" "the segment contains a blank line"
  else if limit < line.length then
    fail "MH_SPOOL_LINE" "a segment line exceeds its byte bound"
  else .ok ()

def checkLines : List Bytes → Except WireError Unit
  | [] => .ok ()
  | line :: rest => do
      checkLine maxFrameLineBytes line
      checkLines rest

/-- `_split_lines`. -/
def splitLines (content : Bytes) : Except WireError (Bytes × List Bytes) :=
  if maxSegmentFileBytes < content.length then
    fail "MH_SPOOL_SIZE" "the segment exceeds the maximum size"
  else
    match Lines.cut lineFeed content with
    | ([], []) => fail "MH_SPOOL_TRUNCATED" "a segment must contain at least a header line"
    | (header :: frames, []) => do
        checkLine maxHeaderLineBytes header
        checkLines frames
        .ok (header, frames)
    | _ => fail "MH_SPOOL_TRUNCATED" "the segment does not end with a complete line"

/-- `parse_segment_bytes`. -/
def parseSegmentBytes (content : Bytes) :
    Except WireError (ParsedSegment (SpoolFrameV1 P)) := do
  let (headerLine, frameLines) ← splitLines content
  if maxSegmentFrames < frameLines.length then
    fail "MH_SPOOL_COUNT" "the segment contains more frames than the reader admits"
  let header ← parseHeader wire headerLine
  let frames ← parseFrames wire header 1 frameLines
  if frames.length ≠ header.recordCount then
    fail "MH_SPOOL_COUNT" "the frame count does not match the header"
  if spoolContentSha256 wire frameLines ≠ header.contentSha256 then
    fail "MH_SPOOL_DIGEST" "the header digest does not match the frame bytes"
  .ok ⟨header, frames, content.length, wire.hexdigest content⟩

end Runtime

end Milhouse.Wire
