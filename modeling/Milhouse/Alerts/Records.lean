import Milhouse.Core.Clock
import Milhouse.Lib.Fallible
import Milhouse.Spool.Segment

/-!
# Milhouse — the records the runtime produces itself

Alert transitions and notification intents are drafts until `finalize` redacts their one free text
and gives them their digests; `buildSegment` then wraps finalized records in frames and a header.
Hashes and the record contract come in as `Hooks`, and nothing is assumed of them here.

* **`finalize_draft`** — finalizing changes the summary and the redaction version, nothing else.
-/

namespace Milhouse

/-- A failure of the pipeline: a stable code and a static message. -/
structure PipelineError where
  code : String
  message : String
  deriving DecidableEq, Repr

/-- What an exception outside the package is normalised to. -/
def unexpectedError : PipelineError := ⟨"MH_INTERNAL_UNEXPECTED", "an unexpected error"⟩

/-! ## Alert states -/

inductive AlertState where
  | inactive
  | firing
  | resolved
  deriving DecidableEq, Repr

/-- The states a transition can lead to. -/
inductive AlertTransition where
  | firing
  | resolved
  deriving DecidableEq, Repr

def AlertTransition.state : AlertTransition → AlertState
  | .firing => .firing
  | .resolved => .resolved

def AlertState.text : AlertState → String
  | .inactive => "inactive"
  | .firing => "firing"
  | .resolved => "resolved"

/-! ## Drafts -/

structure TargetDescriptor where
  id : String
  name : String
  kind : String
  environment : String
  deriving DecidableEq, Repr

/-- An `ObservationCoordinateV1` of an alert transition or of an intent. -/
inductive Observation where
  | transition (kind rule : String) (ruleVersion : Nat) (target : String) (scheduledAt : Stamp)
      (state : AlertState)
  | intent (kind transition channel : String)
  deriving DecidableEq, Repr

/-- `AlertDataV1`. -/
structure AlertData where
  alertKey : String
  ruleId : String
  ruleVersion : Nat
  transitionId : String
  revision : Nat
  previousState : AlertState
  state : AlertTransition
  triggeringObservation : Observation
  severity : String
  summary : String
  evidenceIds : List String
  deriving DecidableEq, Repr

/-- `NotificationIntentDataV1`. -/
structure IntentData where
  intentId : String
  alertKey : String
  transitionId : String
  channelId : String
  channelType : String
  severity : String
  summary : String
  evidenceIds : List String
  deriving DecidableEq, Repr

/-- A `RecordDraftV1` with its payload type; every draft here is target-scoped and system-made. -/
structure Draft (Data : Type) where
  recordType : String
  name : String
  occurredAt : Stamp
  observedAt : Stamp
  ingestedAt : Stamp
  expiresAt : Stamp
  operationId : String
  scope : Scope
  sourceId : String
  sourceType : String
  producer : String
  observationNamespaceId : String
  sourceGenerationDigest : String
  observation : Observation
  target : TargetDescriptor
  severity : String
  trustLevel : String
  privacyClass : PrivacyClass
  redactionVersion : String
  data : Data
  deriving DecidableEq, Repr

abbrev AlertDraft := Draft AlertData
abbrev IntentDraft := Draft IntentData

/-- The payloads the pipeline finalizes in its alert and intent stages. -/
inductive Payload where
  | alert (data : AlertData)
  | intent (data : IntentData)
  deriving DecidableEq, Repr

abbrev RecordDraft := Draft Payload

/-- The same draft with its payload under another type. -/
def Draft.map {α β : Type} (f : α → β) (d : Draft α) : Draft β :=
  { d with data := f d.data }

/-- The payload fields that `_FREE_TEXT_FIELDS` names for these types, rewritten. -/
def Payload.setSummary (summary : String) : Payload → Payload
  | .alert data => .alert { data with summary := summary }
  | .intent data => .intent { data with summary := summary }

def Payload.summary : Payload → String
  | .alert data => data.summary
  | .intent data => data.summary

/-! ## Finalized records -/

/-- `[a-z2-7]`. -/
def isBase32 (c : Char) : Bool := ('a' ≤ c && c ≤ 'z') || ('2' ≤ c && c ≤ '7')

/-- `mh_[a-z2-7]{51}[aq]`. -/
def matchesRecordId (text : String) : Bool :=
  "mh_".toList <+: text.toList && text.length = 55 && (text.toList.drop 3).all isBase32
    && (text.toList.getLast? = some 'a' || text.toList.getLast? = some 'q')

/-- A `RecordIdV1`. -/
abbrev RecordId := { text : String // matchesRecordId text = true }

/-- A `RecordEnvelopeV1`. -/
structure RecordEnvelope where
  draft : RecordDraft
  recordId : RecordId
  dedupeKey : String
  contentHash : String
  deriving DecidableEq

structure SpoolFrame where
  batchId : String
  sequence : Nat
  record : RecordEnvelope
  deriving DecidableEq

/-- The hashes and the record contract, as the runtime calls them. -/
structure Hooks where
  /-- The text of a stamp. -/
  stampText : Stamp → String
  /-- `_base32_digest(_domain_digest(_ALERT_KEY_DOMAIN, …))` of collector, rule, version, target. -/
  alertKeyDigest : String → String → Nat → String → String
  /-- The same of `derive_transition_id`: alert key, observation, previous state, state. -/
  transitionDigest : String → Observation → String → String → String
  /-- The same of `derive_notification_intent_id`: channel, transition. -/
  intentDigest : String → String → String
  /-- `hashlib.sha256(text).hexdigest()`. -/
  sha256Hex : String → String
  /-- `RecordDraftV1.model_validate`. -/
  acceptsDraft : RecordDraft → Bool
  /-- `record_id`, `dedupe_key` and `content_hash` of a draft; `none` where they are refused. -/
  identify : RecordDraft → Option (RecordId × String × String)
  /-- `spool_frame_line`; `none` past the byte bound. -/
  frameLine : SpoolFrame → Option Bytes
  /-- `spool_content_sha256`. -/
  contentSha256 : List Bytes → String

/-- What a pipeline is built with, as far as its alert and intent stages use it. -/
structure PipelineConfig where
  configGeneration : String
  /-- `retention.alerts_days`, which governs alerts and intents. -/
  alertsDays : Nat
  requiredExporters : List String
  /-- `redactor.redact(text).value`; `none` where the redactor refuses. -/
  redact : String → Option String
  redactionVersion : String

section Finalize

variable (hooks : Hooks) (cfg : PipelineConfig)

/-- `_redact_draft` and `finalize_record`. -/
def finalize (draft : RecordDraft) : Except PipelineError RecordEnvelope :=
  match cfg.redact draft.data.summary with
  | none => .error unexpectedError
  | some summary =>
      let redacted : RecordDraft :=
        { draft with
          redactionVersion := cfg.redactionVersion
          data := draft.data.setSummary summary }
      if hooks.acceptsDraft redacted then
        match hooks.identify redacted with
        | some (recordId, dedupeKey, contentHash) => .ok ⟨redacted, recordId, dedupeKey, contentHash⟩
        | none => .error unexpectedError
      else .error unexpectedError

end Finalize

/-- **What finalizing changes.** -/
theorem finalize_draft {hooks : Hooks} {cfg : PipelineConfig} {draft : RecordDraft}
    {record : RecordEnvelope} (h : finalize hooks cfg draft = .ok record) :
    ∃ summary, record.draft = { draft with
      redactionVersion := cfg.redactionVersion, data := draft.data.setSummary summary } := by
  unfold finalize at h
  split at h
  · cases h
  · rename_i summary _
    dsimp only at h
    split at h
    · split at h
      · obtain rfl := Except.ok.inj h
        exact ⟨summary, rfl⟩
      · cases h
    · cases h

/-! ## Segments -/

/-- `_BATCH_SUFFIX_LENGTH`. -/
def batchSuffixLength : Nat := 24

/-- What `_batch_id` digests: the stamp and the record ids, one a line. -/
def batchMaterial (stampText : String) (recordIds : List RecordId) : String :=
  "\n".intercalate (stampText :: recordIds.map Subtype.val)

/-- The digest part of a batch id. -/
def batchSuffix (sha256Hex : String → String) (stampText : String) (recordIds : List RecordId) :
    String :=
  String.ofList ((sha256Hex (batchMaterial stampText recordIds)).toList.take batchSuffixLength)

/-- `_batch_id`. -/
def batchIdOf (sha256Hex : String → String) (sourceId stampText : String)
    (recordIds : List RecordId) : String :=
  sourceId ++ "-" ++ batchSuffix sha256Hex stampText recordIds

def spoolBatchIdError : PipelineError :=
  ⟨"MH_SPOOL_BATCH_ID", "a bounded safe batch id is required"⟩

/-- A header of these fields, if they pass the checks. -/
def makeHeader (fields : HeaderFields) : Except PipelineError SegmentHeaderV1 :=
  match h : fields.check with
  | .ok () => .ok ⟨fields, h⟩
  | .error e => .error ⟨e.code, e.message⟩

/-- `_build_segment` of one record, which shares scope, target, class and type with itself. -/
def buildSegment (hooks : Hooks) (cfg : PipelineConfig) (sourceId : String)
    (record : RecordEnvelope) (stamp : Stamp) :
    Except PipelineError (SegmentHeaderV1 × List SpoolFrame) := do
  let batchId := batchIdOf hooks.sha256Hex sourceId (hooks.stampText stamp) [record.recordId]
  if !matchesBatchId batchId then throw spoolBatchIdError
  let frame : SpoolFrame := ⟨batchId, 1, record⟩
  match hooks.frameLine frame with
  | none => throw unexpectedError
  | some line =>
      let header ← makeHeader
        { batchId := batchId
          configGeneration := cfg.configGeneration
          scope := record.draft.scope
          targetId := some record.draft.target.id
          privacyClass := record.draft.privacyClass
          retentionDays := cfg.alertsDays
          requiredExporters := cfg.requiredExporters
          recordCount := 1
          contentSha256 := hooks.contentSha256 [line] }
      pure (header, [frame])

end Milhouse
