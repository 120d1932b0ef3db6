import Milhouse.Domain.Dump
import Milhouse.Lib.Radix
import Milhouse.Spool.Records

/-!
# Milhouse — what the digests of a record depend on

A `RecordDraftV1` is a redacted record before it has its digests. `finalizeRecord` derives three of
them from projections of the draft: the record id from its identity, the dedupe key from a part of
that identity, and the content hash from the dump without the fields of one run. SHA-256 is a
parameter; the results assume that it has no collisions.

* **`contentHash_eq_iff`** — the content hash depends on every other field, and on nothing else;
* **`recordId_ne_of_source`** — the record id depends on the lineage and the observation;
* **`dedupeKey_eq_iff`** — the dedupe key depends on eight fields exactly;
* **`finalized_digests`** — together, with what leaves all three alone.
-/

namespace Milhouse.Domain

open Json

/-! ## The models -/

inductive RecordType where
  | event
  | metric
  | span
  | run
  | alert
  | notificationIntent
  | incident
  | feedbackItem
  | feedbackTransition
  | audit
  deriving DecidableEq, Repr

def RecordType.text : RecordType → String
  | .event => "event"
  | .metric => "metric"
  | .span => "span"
  | .run => "run"
  | .alert => "alert"
  | .notificationIntent => "notification_intent"
  | .incident => "incident"
  | .feedbackItem => "feedback_item"
  | .feedbackTransition => "feedback_transition"
  | .audit => "audit"

inductive ProducerType where
  | collector
  | receiver
  | system
  | operator
  | importer
  deriving DecidableEq, Repr

def ProducerType.text : ProducerType → String
  | .collector => "collector"
  | .receiver => "receiver"
  | .system => "system"
  | .operator => "operator"
  | .importer => "importer"

inductive Severity where
  | debug
  | info
  | warning
  | error
  | critical
  deriving DecidableEq, Repr

def Severity.text : Severity → String
  | .debug => "debug"
  | .info => "info"
  | .warning => "warning"
  | .error => "error"
  | .critical => "critical"

inductive TrustLevel where
  | system
  | authenticated
  | localUntrusted
  | remoteUntrusted
  deriving DecidableEq, Repr

def TrustLevel.text : TrustLevel → String
  | .system => "system"
  | .authenticated => "authenticated"
  | .localUntrusted => "local_untrusted"
  | .remoteUntrusted => "remote_untrusted"

def scopeText : Scope → String
  | .installation => "installation"
  | .target => "target"

def privacyClassText : PrivacyClass → String
  | .public => "public"
  | .internal => "internal"
  | .sensitive => "sensitive"
  | .restricted => "restricted"

/-- `ObservationScalarV1`, and `ScalarV1`. -/
inductive Scalar (P : CanonicalPlatform) where
  | bool (flag : Bool)
  | int (value : Int)
  | float (value : P.Float)
  | str (text : String)

def Scalar.value {P : CanonicalPlatform} : Scalar P → PyValue P.runtime.Float
  | .bool flag => .bool flag
  | .int value => .int value
  | .float value => .float value
  | .str text => .str text

structure ObservationCoordinateV1 (P : CanonicalPlatform) where
  kind : String
  parts : List (String × Scalar P)

structure SourceDescriptorV1 (P : CanonicalPlatform) where
  id : String
  type : String
  producer : ProducerType
  observationNamespaceId : String
  sourceGenerationDigest : String
  observation : ObservationCoordinateV1 P

structure CollectorDescriptorV1 where
  id : String
  type : String
  implementationVersion : String

structure TargetDescriptorV1 where
  id : String
  name : String
  kind : String
  environment : String

structure CorrelationV1 where
  traceId : Option String
  runId : Option String
  deployId : Option String
  commitId : Option String

structure RecordDraftV1 (P : CanonicalPlatform) where
  recordType : RecordType
  name : String
  occurredAt : Stamp
  observedAt : Stamp
  ingestedAt : Stamp
  expiresAt : Stamp
  sourceEventId : Option String
  sourceEntityId : Option String
  operationId : String
  collectorRunId : Option String
  scope : Scope
  source : SourceDescriptorV1 P
  collector : Option CollectorDescriptorV1
  target : Option TargetDescriptorV1
  severity : Severity
  trustLevel : TrustLevel
  privacyClass : PrivacyClass
  redactionVersion : String
  correlation : CorrelationV1
  dimensions : List (String × Scalar P)
  /-- The dump of one of the ten data models. -/
  data : PyValue P.runtime.Float
  data_conforms : recordDataShape.Conforms data

structure SourceIdentityV1 where
  id : String
  type : String
  observationNamespaceId : String
  sourceGenerationDigest : String

structure RecordIdentityV1 (P : CanonicalPlatform) where
  installationId : String
  redactionVersion : String
  source : SourceIdentityV1
  scope : Scope
  targetId : Option String
  recordType : RecordType
  name : String
  sourceEventId : Option String
  sourceEntityId : Option String
  observation : ObservationCoordinateV1 P

structure DedupeSourceV1 where
  type : String
  id : String
  observationNamespaceId : String

structure RecordDedupeV1 (P : CanonicalPlatform) where
  installationId : String
  source : DedupeSourceV1
  scope : Scope
  targetId : Option String
  recordType : RecordType
  name : String
  observation : ObservationCoordinateV1 P

/-! ## Their fields -/

section Fields

variable (P : CanonicalPlatform)

/-- A field of text. -/
def textField {α : Type} (name : String) (get : α → String) : Field P α :=
  ⟨name, fun x => some (.str (get x))⟩

/-- A field of text that can be `None`. -/
def textOrNoneField {α : Type} (name : String) (get : α → Option String) : Field P α :=
  ⟨name, fun x => (get x).map .str⟩

def stampField {α : Type} (name : String) (get : α → Stamp) : Field P α :=
  ⟨name, fun x => some (.datetime (get x))⟩

/-- A field of a container. -/
def valueField {α : Type} (name : String) (get : α → PyValue P.runtime.Float) : Field P α :=
  ⟨name, fun x => some (get x)⟩

def scalarsValue (members : List (String × Scalar P)) : PyValue P.runtime.Float :=
  .dict (members.map fun m => (m.1, m.2.value))

def observationFields : List (Field P (ObservationCoordinateV1 P)) :=
  [textField P "kind" (·.kind), valueField P "parts" fun o => scalarsValue P o.parts]

def sourceFields : List (Field P (SourceDescriptorV1 P)) :=
  [textField P "id" (·.id), textField P "type" (·.type),
    textField P "producer" fun s => s.producer.text,
    textField P "observation_namespace_id" (·.observationNamespaceId),
    textField P "source_generation_digest" (·.sourceGenerationDigest),
    valueField P "observation" fun s => dump (observationFields P) s.observation]

def collectorFields : List (Field P CollectorDescriptorV1) :=
  [textField P "id" (·.id), textField P "type" (·.type),
    textField P "plugin_api_version" fun _ => "1.0",
    textField P "implementation_version" (·.implementationVersion)]

def targetFields : List (Field P TargetDescriptorV1) :=
  [textField P "id" (·.id), textField P "name" (·.name), textField P "kind" (·.kind),
    textField P "environment" (·.environment)]

def correlationFields : List (Field P CorrelationV1) :=
  [textOrNoneField P "trace_id" (·.traceId), textOrNoneField P "run_id" (·.runId),
    textOrNoneField P "deploy_id" (·.deployId), textOrNoneField P "commit_id" (·.commitId)]

def draftFields : List (Field P (RecordDraftV1 P)) :=
  [textField P "schema_version" fun _ => "1.0",
    textField P "record_type" fun d => d.recordType.text,
    textField P "name" (·.name),
    stampField P "occurred_at" (·.occurredAt),
    stampField P "observed_at" (·.observedAt),
    stampField P "ingested_at" (·.ingestedAt),
    stampField P "expires_at" (·.expiresAt),
    textOrNoneField P "source_event_id" (·.sourceEventId),
    textOrNoneField P "source_entity_id" (·.sourceEntityId),
    textField P "operation_id" (·.operationId),
    textOrNoneField P "collector_run_id" (·.collectorRunId),
    textField P "scope" fun d => scopeText d.scope,
    valueField P "source" fun d => dump (sourceFields P) d.source,
    ⟨"collector", fun d => d.collector.map (dump (collectorFields P))⟩,
    ⟨"target", fun d => d.target.map (dump (targetFields P))⟩,
    textField P "severity" fun d => d.severity.text,
    textField P "trust_level" fun d => d.trustLevel.text,
    textField P "privacy_class" fun d => privacyClassText d.privacyClass,
    textField P "redaction_version" (·.redactionVersion),
    valueField P "correlation" fun d => dump (correlationFields P) d.correlation,
    valueField P "dimensions" fun d => scalarsValue P d.dimensions,
    valueField P "data" (·.data)]

def sourceIdentityFields : List (Field P SourceIdentityV1) :=
  [textField P "id" (·.id), textField P "type" (·.type),
    textField P "observation_namespace_id" (·.observationNamespaceId),
    textField P "source_generation_digest" (·.sourceGenerationDigest)]

def identityFields : List (Field P (RecordIdentityV1 P)) :=
  [valueField P "identity_version" fun _ => .int 1,
    textField P "installation_id" (·.installationId),
    textField P "schema_version" fun _ => "1.0",
    textField P "redaction_version" (·.redactionVersion),
    valueField P "source" fun i => dump (sourceIdentityFields P) i.source,
    textField P "scope" fun i => scopeText i.scope,
    textOrNoneField P "target_id" (·.targetId),
    textField P "record_type" fun i => i.recordType.text,
    textField P "name" (·.name),
    textOrNoneField P "source_event_id" (·.sourceEventId),
    textOrNoneField P "source_entity_id" (·.sourceEntityId),
    valueField P "observation" fun i => dump (observationFields P) i.observation]

def dedupeSourceFields : List (Field P DedupeSourceV1) :=
  [textField P "type" (·.type), textField P "id" (·.id),
    textField P "observation_namespace_id" (·.observationNamespaceId)]

def dedupeFields : List (Field P (RecordDedupeV1 P)) :=
  [valueField P "dedupe_version" fun _ => .int 1,
    textField P "installation_id" (·.installationId),
    valueField P "source" fun d => dump (dedupeSourceFields P) d.source,
    textField P "scope" fun d => scopeText d.scope,
    textOrNoneField P "target_id" (·.targetId),
    textField P "record_type" fun d => d.recordType.text,
    textField P "name" (·.name),
    valueField P "observation" fun d => dump (observationFields P) d.observation]

end Fields

/-! ## The digests -/

/-- `identity_source`. -/
def SourceDescriptorV1.identitySource {P : CanonicalPlatform} (s : SourceDescriptorV1 P) :
    SourceIdentityV1 :=
  ⟨s.id, s.type, s.observationNamespaceId, s.sourceGenerationDigest⟩

/-- `RecordDraftV1.identity`. -/
def RecordDraftV1.identity {P : CanonicalPlatform} (draft : RecordDraftV1 P)
    (installationId : String) : RecordIdentityV1 P where
  installationId := installationId
  redactionVersion := draft.redactionVersion
  source := draft.source.identitySource
  scope := draft.scope
  targetId := draft.target.map (·.id)
  recordType := draft.recordType
  name := draft.name
  sourceEventId := draft.sourceEventId
  sourceEntityId := draft.sourceEntityId
  observation := draft.source.observation

/-- `RecordDedupeV1.from_identity`. -/
def RecordDedupeV1.fromIdentity {P : CanonicalPlatform} (identity : RecordIdentityV1 P) :
    RecordDedupeV1 P where
  installationId := identity.installationId
  source := ⟨identity.source.type, identity.source.id, identity.source.observationNamespaceId⟩
  scope := identity.scope
  targetId := identity.targetId
  recordType := identity.recordType
  name := identity.name
  observation := identity.observation

/-- What `_content_projection` pops. -/
def contentExcluded : List String :=
  ["record_id", "dedupe_key", "content_hash", "operation_id", "collector_run_id", "observed_at",
    "ingested_at", "expires_at"]

/-- A collector without its implementation version. -/
def dropVersion {Float : Type} : PyValue Float → PyValue Float
  | .dict members => .dict (members.filter fun m => m.1 ≠ "implementation_version")
  | value => value

/-- `_content_projection`. -/
def contentProjection {Float : Type} (values : List (String × PyValue Float)) :
    List (String × PyValue Float) :=
  (values.filter fun m => m.1 ∉ contentExcluded).map fun m =>
    if m.1 = "collector" then (m.1, dropVersion m.2) else m

/-- A `RecordError`, an `IdentityError` or a validation failure. -/
structure DomainError where
  code : String
  message : String
  deriving DecidableEq, Repr

def recordIdDomain : List UInt8 := encodeUtf8 "milhouse-record-id-v1\x00".toList
def contentDomain : List UInt8 := encodeUtf8 "milhouse-content-v1\x00".toList
def dedupeDomain : List UInt8 := encodeUtf8 "milhouse-dedupe-v1\x00".toList

/-- A finalized record. -/
structure RecordEnvelopeV1 (P : CanonicalPlatform) where
  draft : RecordDraftV1 P
  recordId : String
  dedupeKey : String
  contentHash : String

section Finalize

variable (P : CanonicalPlatform) (sha256 : List UInt8 → List UInt8)

/-- `_domain_digest`. -/
def domainDigest (domain : List UInt8) (projection : PyValue P.runtime.Float) :
    Except DomainError (List UInt8) :=
  match canonicalJsonBytes P.runtime recordLimits projection with
  | .error _ => .error ⟨"MH_IDENTITY_PROJECTION", "projection is not canonical"⟩
  | .ok canonical => .ok (sha256 (domain ++ canonical))

def base32Digest (digest : List UInt8) : String := String.ofList (Radix.base32 digest)

def deriveRecordId (identity : RecordIdentityV1 P) : Except DomainError String := do
  let digest ← domainDigest P sha256 recordIdDomain (dump (identityFields P) identity)
  pure ("mh_" ++ base32Digest digest)

def deriveContentHash (projection : List (String × PyValue P.runtime.Float)) :
    Except DomainError String := do
  let digest ← domainDigest P sha256 contentDomain (.dict projection)
  pure (String.ofList (Radix.hex digest))

def deriveDedupeKey (dedupe : RecordDedupeV1 P) : Except DomainError String := do
  let digest ← domainDigest P sha256 dedupeDomain (dump (dedupeFields P) dedupe)
  pure ("mh_d1_" ++ base32Digest digest)

/-- The fields of an envelope: those of its draft and its digests. -/
def envelopeFields : List (Field P (RecordEnvelopeV1 P)) :=
  (draftFields P).map (fun f => ⟨f.name, fun r => f.get r.draft⟩) ++
    [textField P "record_id" (·.recordId), textField P "dedupe_key" (·.dedupeKey),
      textField P "content_hash" (·.contentHash)]

/-- The bound of the envelope's validator. -/
def validateEnvelope (record : RecordEnvelopeV1 P) : Except DomainError (RecordEnvelopeV1 P) :=
  match canonicalJsonBytes P.runtime recordLimits (dump (envelopeFields P) record) with
  | .error _ => .error ⟨"milhouse_record_invalid", "record input is invalid"⟩
  | .ok _ => .ok record

/-- `verify_record_identity`. -/
def verifyRecordIdentity (installationId : String) (record : RecordEnvelopeV1 P) :
    Except DomainError Unit := do
  let identity := record.draft.identity installationId
  let recordId ← deriveRecordId P sha256 identity
  if record.recordId ≠ recordId then
    throw ⟨"MH_RECORD_ID_MISMATCH", "record_id does not match record identity"⟩
  let dedupeKey ← deriveDedupeKey P sha256 (.fromIdentity identity)
  if record.dedupeKey ≠ dedupeKey then
    throw ⟨"MH_RECORD_DEDUPE_MISMATCH", "dedupe_key does not match record identity"⟩

/-- `finalize_record`, of a draft that passed its validators. -/
def finalizeRecord (installationId : String) (draft : RecordDraftV1 P) :
    Except DomainError (RecordEnvelopeV1 P) := do
  let identity := draft.identity installationId
  let recordId ← deriveRecordId P sha256 identity
  let dedupeKey ← deriveDedupeKey P sha256 (.fromIdentity identity)
  let contentHash ← deriveContentHash P sha256 (contentProjection (dumpFields (draftFields P) draft))
  let record ← validateEnvelope P ⟨draft, recordId, dedupeKey, contentHash⟩
  verifyRecordIdentity P sha256 installationId record
  pure record

end Finalize

/-! ## Digests and normal forms -/

section Digests

variable {P : CanonicalPlatform} {sha256 : List UInt8 → List UInt8}

/-- **A digest stands for the normal form** of what it was made from. -/
theorem domainDigest_eq_iff (hsha : Function.Injective sha256) {domain : List UInt8}
    {p q : PyValue P.runtime.Float} {a b : List UInt8}
    (hp : domainDigest P sha256 domain p = .ok a) (hq : domainDigest P sha256 domain q = .ok b) :
    a = b ↔ normal P p = normal P q := by
  unfold domainDigest at hp hq
  split at hp
  · cases hp
  · rename_i bytes hbytes
    split at hq
    · cases hq
    · rename_i bytes' hbytes'
      rw [← Except.ok.inj hp, ← Except.ok.inj hq, ← canonicalJsonBytes_eq_iff hbytes hbytes',
        hsha.eq_iff, List.append_cancel_left_eq]

/-- Tokens with one prefix are equal exactly if their digests are. -/
theorem token_eq_iff (start : String) (a b : List UInt8) :
    start ++ base32Digest a = start ++ base32Digest b ↔ a = b := by
  constructor
  · intro h
    have hlist := congrArg String.toList h
    rw [String.toList_append, String.toList_append, List.append_cancel_left_eq, base32Digest,
      base32Digest, String.toList_ofList, String.toList_ofList] at hlist
    exact Radix.base32_injective hlist
  · intro h
    rw [h]

/-- Record ids are equal exactly if the identities have one canonical form. -/
theorem deriveRecordId_eq_iff (hsha : Function.Injective sha256) {i j : RecordIdentityV1 P}
    {a b : String} (hi : deriveRecordId P sha256 i = .ok a) (hj : deriveRecordId P sha256 j = .ok b) :
    a = b ↔ normal P (dump (identityFields P) i) = normal P (dump (identityFields P) j) := by
  obtain ⟨digest, hdigest, ha⟩ := Except.bind_eq_ok_iff.mp hi
  obtain ⟨digest', hdigest', hb⟩ := Except.bind_eq_ok_iff.mp hj
  rw [← Except.ok.inj ha, ← Except.ok.inj hb, token_eq_iff, domainDigest_eq_iff hsha hdigest hdigest']

/-- Dedupe keys are equal exactly if the dedupe identities have one canonical form. -/
theorem deriveDedupeKey_eq_iff (hsha : Function.Injective sha256) {i j : RecordDedupeV1 P}
    {a b : String} (hi : deriveDedupeKey P sha256 i = .ok a)
    (hj : deriveDedupeKey P sha256 j = .ok b) :
    a = b ↔ normal P (dump (dedupeFields P) i) = normal P (dump (dedupeFields P) j) := by
  obtain ⟨digest, hdigest, ha⟩ := Except.bind_eq_ok_iff.mp hi
  obtain ⟨digest', hdigest', hb⟩ := Except.bind_eq_ok_iff.mp hj
  rw [← Except.ok.inj ha, ← Except.ok.inj hb, token_eq_iff, domainDigest_eq_iff hsha hdigest hdigest']

/-- Content hashes are equal exactly if the hashed projections have one canonical form. -/
theorem deriveContentHash_eq_iff (hsha : Function.Injective sha256)
    {p q : List (String × PyValue P.runtime.Float)} {a b : String}
    (hp : deriveContentHash P sha256 p = .ok a) (hq : deriveContentHash P sha256 q = .ok b) :
    a = b ↔ normal P (.dict p) = normal P (.dict q) := by
  obtain ⟨digest, hdigest, ha⟩ := Except.bind_eq_ok_iff.mp hp
  obtain ⟨digest', hdigest', hb⟩ := Except.bind_eq_ok_iff.mp hq
  rw [← Except.ok.inj ha, ← Except.ok.inj hb, ← domainDigest_eq_iff hsha hdigest hdigest']
  constructor
  · intro h
    have hlist := congrArg String.toList h
    rw [String.toList_ofList, String.toList_ofList] at hlist
    exact Radix.hex_injective hlist
  · intro h
    rw [h]

/-- What a finalized record is made of. -/
theorem finalizeRecord_ok {installationId : String} {d : RecordDraftV1 P} {r : RecordEnvelopeV1 P}
    (h : finalizeRecord P sha256 installationId d = .ok r) :
    deriveRecordId P sha256 (d.identity installationId) = .ok r.recordId ∧
      deriveDedupeKey P sha256 (.fromIdentity (d.identity installationId)) = .ok r.dedupeKey ∧
      deriveContentHash P sha256 (contentProjection (dumpFields (draftFields P) d)) =
        .ok r.contentHash := by
  obtain ⟨recordId, hid, h⟩ := Except.bind_eq_ok_iff.mp h
  obtain ⟨dedupeKey, hdedupe, h⟩ := Except.bind_eq_ok_iff.mp h
  obtain ⟨contentHash, hcontent, h⟩ := Except.bind_eq_ok_iff.mp h
  obtain ⟨record, hrecord, h⟩ := Except.bind_eq_ok_iff.mp h
  obtain ⟨_, -, h⟩ := Except.bind_eq_ok_iff.mp h
  obtain rfl := Except.ok.inj h
  unfold validateEnvelope at hrecord
  split at hrecord
  · cases hrecord
  · obtain rfl := Except.ok.inj hrecord
    exact ⟨hid, hdedupe, hcontent⟩

end Digests

/-! ## The same after normalization -/

section Same

variable {P : CanonicalPlatform} {α : Type}

@[simp] theorem same_textField (name : String) (get : α → String) (x y : α) :
    (textField P name get).Same x y ↔
      normalizeString P.runtime (get x) = normalizeString P.runtime (get y) := by
  show some (normal P (.str (get x))) = some (normal P (.str (get y))) ↔ _
  rw [normal, normal, Option.some.injEq, Value.str.injEq, String.toList_inj]

@[simp] theorem same_textOrNoneField (name : String) (get : α → Option String) (x y : α) :
    (textOrNoneField P name get).Same x y ↔
      (get x).map (normalizeString P.runtime) = (get y).map (normalizeString P.runtime) := by
  show ((get x).map PyValue.str).map (normal P) = ((get y).map PyValue.str).map (normal P) ↔ _
  cases get x <;> cases get y <;> simp [normal, String.toList_inj]

@[simp] theorem same_valueField (name : String) (get : α → PyValue P.runtime.Float) (x y : α) :
    (valueField P name get).Same x y ↔ normal P (get x) = normal P (get y) := by
  show some (normal P (get x)) = some (normal P (get y)) ↔ _
  rw [Option.some.injEq]

/-- The text of a case is normalized as it stands. -/
theorem normalizeString_text {text : String}
    (h : (text.toList.all fun c => c.toNat < 128 && c ≠ '\r') = true) :
    normalizeString P.runtime text = text := by
  refine normalizeString_ascii fun c hc => ?_
  have hchar := List.all_eq_true.mp h c hc
  rw [Bool.and_eq_true, decide_eq_true_eq, decide_eq_true_eq] at hchar
  exact hchar

/-- Composition never identifies two scopes. -/
theorem normalizeString_scopeText (a b : Scope) :
    normalizeString P.runtime (scopeText a) = normalizeString P.runtime (scopeText b) ↔ a = b := by
  have hplain : ∀ a : Scope,
      ((scopeText a).toList.all fun c => c.toNat < 128 && c ≠ '\r') = true := by
    intro a
    cases a <;> decide
  rw [normalizeString_text (hplain a), normalizeString_text (hplain b)]
  cases a <;> cases b <;> decide

/-- Composition never identifies two record types. -/
theorem normalizeString_recordType (a b : RecordType) :
    normalizeString P.runtime a.text = normalizeString P.runtime b.text ↔ a = b := by
  have hplain : ∀ a : RecordType,
      (a.text.toList.all fun c => c.toNat < 128 && c ≠ '\r') = true := by
    intro a
    cases a <;> decide
  rw [normalizeString_text (hplain a), normalizeString_text (hplain b)]
  cases a <;> cases b <;> decide

/-- The names of a draft's fields are distinct and plain, so they sort and spell as they stand. -/
theorem plain_draftFields : PlainFields (draftFields P) := by
  apply PlainFields.of_names
  simp only [draftFields, textField, textOrNoneField, stampField, valueField, List.map_cons,
    List.map_nil]
  decide

theorem plain_collectorFields : PlainFields (collectorFields P) := by
  apply PlainFields.of_names
  simp only [collectorFields, textField, List.map_cons, List.map_nil]
  decide

theorem plain_identityFields : PlainFields (identityFields P) := by
  apply PlainFields.of_names
  simp only [identityFields, textField, textOrNoneField, valueField, List.map_cons, List.map_nil]
  decide

theorem plain_sourceIdentityFields : PlainFields (sourceIdentityFields P) := by
  apply PlainFields.of_names
  simp only [sourceIdentityFields, textField, List.map_cons, List.map_nil]
  decide

theorem plain_dedupeFields : PlainFields (dedupeFields P) := by
  apply PlainFields.of_names
  simp only [dedupeFields, textField, textOrNoneField, valueField, List.map_cons, List.map_nil]
  decide

theorem plain_dedupeSourceFields : PlainFields (dedupeSourceFields P) := by
  apply PlainFields.of_names
  simp only [dedupeSourceFields, textField, List.map_cons, List.map_nil]
  decide


end Same

/-! ## A draft that is finalized -/

section Envelope

variable {P : CanonicalPlatform}

/-- So have those of a finalized record. -/
theorem plain_envelopeFields : PlainFields (envelopeFields P) := by
  apply PlainFields.of_names
  simp only [envelopeFields, draftFields, textField, textOrNoneField, stampField, valueField,
    List.map_append, List.map_cons, List.map_nil]
  decide

/-- An envelope dumps as its draft followed by the three derived tokens. -/
theorem dumpFields_envelopeFields (record : RecordEnvelopeV1 P) :
    dumpFields (envelopeFields P) record = dumpFields (draftFields P) record.draft ++
      [("record_id", .str record.recordId), ("dedupe_key", .str record.dedupeKey),
        ("content_hash", .str record.contentHash)] := by
  unfold dumpFields envelopeFields
  rw [List.filterMap_append, List.filterMap_map]
  rfl

/-- A text member costs its quoted key, its quoted text and the colon between them. -/
theorem memberSize_str {name : String} (hname : IsAsciiText name.toList) (text : String) :
    memberSize P.runtime (name, .str text) = (encodeUtf8 (quote name.toList)).length +
      ((encodeUtf8 (quoteString P.runtime text)).length + 1) := by
  unfold memberSize memberText
  rw [normalizeString_ascii hname, quoteString_ascii hname, encodeUtf8_append, List.length_append]
  rfl

/-- The size of an envelope is that of its draft, its digests and their keys. -/
theorem length_envelope (record : RecordEnvelopeV1 P) :
    (encodeUtf8 (canonicalText P.runtime (dump (envelopeFields P) record))).length =
      (encodeUtf8 (canonicalText P.runtime (dump (draftFields P) record.draft))).length +
        (encodeUtf8 (quoteString P.runtime record.recordId)).length +
        (encodeUtf8 (quoteString P.runtime record.dedupeKey)).length +
        (encodeUtf8 (quoteString P.runtime record.contentHash)).length + 43 := by
  have hne : dumpFields (draftFields P) record.draft ≠ [] := List.cons_ne_nil _ _
  have hid : IsAsciiText "record_id".toList :=
    plain_envelopeFields.ascii (textField P "record_id" (·.recordId)) (by simp [envelopeFields])
  have hdedupe : IsAsciiText "dedupe_key".toList :=
    plain_envelopeFields.ascii (textField P "dedupe_key" (·.dedupeKey)) (by simp [envelopeFields])
  have hcontent : IsAsciiText "content_hash".toList :=
    plain_envelopeFields.ascii (textField P "content_hash" (·.contentHash))
      (by simp [envelopeFields])
  have hidSize : (encodeUtf8 (quote "record_id".toList)).length = 11 := by decide
  have hdedupeSize : (encodeUtf8 (quote "dedupe_key".toList)).length = 12 := by decide
  have hcontentSize : (encodeUtf8 (quote "content_hash".toList)).length = 14 := by decide
  unfold dump
  rw [dumpFields_envelopeFields, length_canonicalText_dict hne,
    length_canonicalText_dict (List.append_ne_nil_of_left_ne_nil hne _), List.map_append,
    List.sum_append]
  simp only [List.map_cons, List.map_nil, List.sum_cons, List.sum_nil]
  rw [memberSize_str hid, memberSize_str hdedupe, memberSize_str hcontent]
  omega

/-- An envelope has three nodes more than its draft. -/
theorem nodes_envelope (record : RecordEnvelopeV1 P) :
    (dump (envelopeFields P) record).nodes = (dump (draftFields P) record.draft).nodes + 3 := by
  rw [dump, dump, dumpFields_envelopeFields, PyValue.nodes, PyValue.nodes, PyValue.memberNodes_eq,
    PyValue.memberNodes_eq, List.map_append, List.sum_append]
  simp only [List.map_cons, List.map_nil, List.sum_cons, List.sum_nil, PyValue.nodes]
  omega

/-- An envelope is no higher than its draft. -/
theorem height_envelope_le (record : RecordEnvelopeV1 P) :
    (dump (envelopeFields P) record).height ≤ (dump (draftFields P) record.draft).height := by
  rw [dump, dump, dumpFields_envelopeFields, PyValue.height, PyValue.height]
  apply Nat.add_le_add_left
  apply PyValue.memberHeight_le
  intro m hm
  rcases List.mem_append.mp hm with hm | hm
  · exact PyValue.height_le_of_mem_dict hm
  · simp only [List.mem_cons, List.not_mem_nil, or_false] at hm
    rcases hm with rfl | rfl | rfl <;> exact Nat.zero_le _

/-- An envelope of a well-formed draft is well formed. -/
theorem wellFormed_envelope {record : RecordEnvelopeV1 P}
    (h : WellFormed P.runtime (dump (draftFields P) record.draft)) :
    WellFormed P.runtime (dump (envelopeFields P) record) := by
  cases h with
  | dict _ _ hmembers =>
      refine .dict _ (nodup_dumpFields plain_envelopeFields record) fun m hm => ?_
      rw [dumpFields_envelopeFields, List.mem_append] at hm
      rcases hm with hm | hm
      · exact hmembers m hm
      · simp only [List.mem_cons, List.not_mem_nil, or_false] at hm
        rcases hm with rfl | rfl | rfl <;> exact .str _

/-- **An envelope is valid** where its draft is canonical and there is room for the digests. -/
theorem validateEnvelope_of {record : RecordEnvelopeV1 P} {bytes : List UInt8}
    (hdraft : canonicalJsonBytes P.runtime recordLimits (dump (draftFields P) record.draft) =
      .ok bytes)
    (hnodes : (dump (draftFields P) record.draft).nodes + 3 ≤ recordLimits.maxNodes)
    (hbytes : bytes.length + (encodeUtf8 (quoteString P.runtime record.recordId)).length +
      (encodeUtf8 (quoteString P.runtime record.dedupeKey)).length +
      (encodeUtf8 (quoteString P.runtime record.contentHash)).length + 43 ≤
        recordLimits.maxBytes) :
    validateEnvelope P record = .ok record := by
  obtain ⟨⟨hwell, -, hheight, -⟩, rfl⟩ := canonicalJsonBytes_eq_ok_iff.mp hdraft
  have hvalid := (@canonicalJsonBytes_eq_ok_iff P.runtime recordLimits
    (dump (envelopeFields P) record) _).mpr ⟨⟨wellFormed_envelope hwell,
      (nodes_envelope record).trans_le hnodes, (height_envelope_le record).trans hheight,
      (length_envelope record).trans_le hbytes⟩, rfl⟩
  unfold validateEnvelope
  rw [hvalid]

/-- **A draft is finalized** where it has its digests and the envelope is valid. -/
theorem finalizeRecord_of {sha256 : List UInt8 → List UInt8} {installationId : String}
    {record : RecordEnvelopeV1 P}
    (hid : deriveRecordId P sha256 (record.draft.identity installationId) = .ok record.recordId)
    (hdedupe : deriveDedupeKey P sha256 (.fromIdentity (record.draft.identity installationId)) =
      .ok record.dedupeKey)
    (hcontent : deriveContentHash P sha256
      (contentProjection (dumpFields (draftFields P) record.draft)) = .ok record.contentHash)
    (hvalid : validateEnvelope P record = .ok record) :
    finalizeRecord P sha256 installationId record.draft = .ok record := by
  have hverified : verifyRecordIdentity P sha256 installationId record = .ok () := by
    unfold verifyRecordIdentity
    refine Except.bind_eq_ok_iff.mpr ⟨_, hid, ?_⟩
    rw [if_neg (fun h => h rfl)]
    refine Except.bind_eq_ok_iff.mpr ⟨_, hdedupe, ?_⟩
    rw [if_neg (fun h => h rfl)]
    rfl
  unfold finalizeRecord
  refine Except.bind_eq_ok_iff.mpr ⟨_, hid, ?_⟩
  refine Except.bind_eq_ok_iff.mpr ⟨_, hdedupe, ?_⟩
  refine Except.bind_eq_ok_iff.mpr ⟨_, hcontent, ?_⟩
  refine Except.bind_eq_ok_iff.mpr ⟨_, hvalid, ?_⟩
  exact Except.bind_eq_ok_iff.mpr ⟨_, hverified, rfl⟩

end Envelope

/-! ## What the content hash depends on -/

section Content

variable {P : CanonicalPlatform}

/-- Two collectors are the same but for their implementation versions. -/
def SameCollector (P : CanonicalPlatform) :
    Option CollectorDescriptorV1 → Option CollectorDescriptorV1 → Prop
  | none, none => True
  | some c, some c' =>
      ∀ f ∈ collectorFields P, f.name ≠ "implementation_version" → f.Same c c'
  | _, _ => False

/-- Two drafts have the same content: every field of them but those of one run. -/
structure SameContent (d d' : RecordDraftV1 P) : Prop where
  fields : ∀ f ∈ draftFields P, f.name ∉ contentExcluded → f.name ≠ "collector" → f.Same d d'
  collector : SameCollector P d.collector d'.collector

/-- The fields of the content projection. -/
def contentFields (P : CanonicalPlatform) : List (Field P (RecordDraftV1 P)) :=
  ((draftFields P).filter fun f => f.name ∉ contentExcluded).map fun f =>
    if f.name = "collector" then { f with get := fun d => (f.get d).map dropVersion } else f

/-- **The content projection of a dump** is a dump of the remaining fields. -/
theorem contentProjection_dumpFields (d : RecordDraftV1 P) :
    contentProjection (dumpFields (draftFields P) d) = dumpFields (contentFields P) d := by
  unfold contentProjection contentFields
  have hfilter := dumpFields_filter (draftFields P) (fun name => decide (name ∉ contentExcluded)) d
  rw [hfilter]
  exact dumpFields_map _ "collector" dropVersion d

/-- Dropping the implementation version is dropping that field from the dump. -/
theorem dropVersion_dump (c : CollectorDescriptorV1) :
    dropVersion (dump (collectorFields P) c) =
      dump ((collectorFields P).filter fun f => f.name ≠ "implementation_version") c := by
  unfold dump dropVersion
  dsimp only
  rw [dumpFields_filter (collectorFields P) (fun name => decide (name ≠ "implementation_version")) c]

/-- Dropping fields keeps the others distinct. -/
theorem plain_filter {α : Type} {fields : List (Field P α)} (h : PlainFields fields)
    (p : Field P α → Bool) : PlainFields (fields.filter p) where
  distinct := h.distinct.sublist (List.filter_sublist.map _)
  ascii f hf := h.ascii f (List.mem_of_mem_filter hf)

theorem plain_contentFields : PlainFields (contentFields P) where
  distinct := by
    have hnames : (contentFields P).map (·.name) =
        ((draftFields P).filter fun f => f.name ∉ contentExcluded).map (·.name) := by
      unfold contentFields
      rw [List.map_map]
      refine List.map_congr_left fun f _ => ?_
      show (if f.name = "collector" then _ else f : Field P _).name = f.name
      split <;> rfl
    rw [hnames]
    exact (plain_filter plain_draftFields _).distinct
  ascii f hf := by
    obtain ⟨f', hf', rfl⟩ := List.mem_map.mp hf
    have hascii := plain_draftFields.ascii f' (List.mem_of_mem_filter hf')
    split
    · exact hascii
    · exact hascii

/-- The collector without its version is the same exactly when its other fields are. -/
theorem map_dropVersion_eq_iff (c c' : Option CollectorDescriptorV1) :
    ((c.map (dump (collectorFields P))).map dropVersion).map (normal P) =
      ((c'.map (dump (collectorFields P))).map dropVersion).map (normal P) ↔
        SameCollector P c c' := by
  cases c with
  | none =>
      cases c' with
      | none => exact ⟨fun _ => trivial, fun _ => rfl⟩
      | some c' => exact ⟨nofun, nofun⟩
  | some c =>
      cases c' with
      | none => exact ⟨nofun, nofun⟩
      | some c' =>
          rw [Option.map_some, Option.map_some, Option.map_some, Option.map_some, Option.map_some,
            Option.map_some, Option.some.injEq, dropVersion_dump, dropVersion_dump,
            normal_dump_eq_iff (plain_filter plain_collectorFields _)]
          simp only [List.mem_filter, decide_eq_true_eq, and_imp]
          rfl

/-- The only field of the name. -/
theorem get_collector {f : Field P (RecordDraftV1 P)} (hf : f ∈ draftFields P)
    (hname : f.name = "collector") : f.get = fun d => d.collector.map (dump (collectorFields P)) := by
  have hmem : (⟨"collector", fun d => d.collector.map (dump (collectorFields P))⟩ :
      Field P (RecordDraftV1 P)) ∈ draftFields P := by
    simp [draftFields]
  rw [List.inj_on_of_nodup_map plain_draftFields.distinct hf hmem hname]

/-- **The normal form of the content projection** is the content. -/
theorem normal_content_eq_iff (d d' : RecordDraftV1 P) :
    normal P (.dict (contentProjection (dumpFields (draftFields P) d))) =
      normal P (.dict (contentProjection (dumpFields (draftFields P) d'))) ↔ SameContent d d' := by
  have hdump := normal_dump_eq_iff plain_contentFields d d'
  unfold dump at hdump
  rw [contentProjection_dumpFields, contentProjection_dumpFields, hdump]
  unfold contentFields
  simp only [List.forall_mem_map, List.mem_filter, decide_eq_true_eq, and_imp]
  constructor
  · intro h
    constructor
    · intro f hf hincluded hother
      have hsame := h f hf hincluded
      rw [if_neg hother] at hsame
      exact hsame
    · have hmem : (⟨"collector", fun d => d.collector.map (dump (collectorFields P))⟩ :
          Field P (RecordDraftV1 P)) ∈ draftFields P := by
        simp [draftFields]
      have hincluded : "collector" ∉ contentExcluded := by decide
      have hsame := h _ hmem hincluded
      rw [if_pos rfl] at hsame
      exact (map_dropVersion_eq_iff _ _).mp hsame
  · intro h f hf hincluded
    split
    · rename_i hname
      show ((f.get d).map dropVersion).map (normal P) = ((f.get d').map dropVersion).map (normal P)
      rw [get_collector hf hname]
      exact (map_dropVersion_eq_iff _ _).mpr h.collector
    · rename_i hname
      exact h.fields f hf hincluded hname

end Content

/-! ## What the digests depend on -/

section Dependence

variable {P : CanonicalPlatform} {sha256 : List UInt8 → List UInt8}
variable {installationId : String} {d d' : RecordDraftV1 P} {r r' : RecordEnvelopeV1 P}

/-- A draft with the fields of another run. -/
def RecordDraftV1.ofRun (d : RecordDraftV1 P) (operationId : String) (collectorRunId : Option String)
    (observedAt ingestedAt expiresAt : Stamp) (implementationVersion : String) : RecordDraftV1 P :=
  { d with
    operationId, collectorRunId, observedAt, ingestedAt, expiresAt
    collector := d.collector.map fun c => { c with implementationVersion } }

/-- The lineage of the source: its id, its type, its namespace and its generation. -/
def SameLineage (d d' : RecordDraftV1 P) : Prop :=
  ∀ f ∈ sourceIdentityFields P, f.Same d.source.identitySource d'.source.identitySource

def SameObservation (d d' : RecordDraftV1 P) : Prop :=
  normal P (dump (observationFields P) d.source.observation) =
    normal P (dump (observationFields P) d'.source.observation)

/-- The eight fields of the dedupe key. -/
structure SameDedupe (d d' : RecordDraftV1 P) : Prop where
  sourceType : normalizeString P.runtime d.source.type = normalizeString P.runtime d'.source.type
  sourceId : normalizeString P.runtime d.source.id = normalizeString P.runtime d'.source.id
  namespaceId : normalizeString P.runtime d.source.observationNamespaceId =
    normalizeString P.runtime d'.source.observationNamespaceId
  scope : d.scope = d'.scope
  targetId : (d.target.map (·.id)).map (normalizeString P.runtime) =
    (d'.target.map (·.id)).map (normalizeString P.runtime)
  recordType : d.recordType = d'.recordType
  name : normalizeString P.runtime d.name = normalizeString P.runtime d'.name
  observation : SameObservation d d'

/-- **The content hash** depends on every field but those of one run. -/
theorem contentHash_eq_iff (hsha : Function.Injective sha256)
    (h : finalizeRecord P sha256 installationId d = .ok r)
    (h' : finalizeRecord P sha256 installationId d' = .ok r') :
    r.contentHash = r'.contentHash ↔ SameContent d d' := by
  obtain ⟨-, -, hcontent⟩ := finalizeRecord_ok h
  obtain ⟨-, -, hcontent'⟩ := finalizeRecord_ok h'
  rw [deriveContentHash_eq_iff hsha hcontent hcontent', normal_content_eq_iff]

/-- **The record id** depends on the lineage and the observation. -/
theorem recordId_ne_of_source (hsha : Function.Injective sha256)
    (h : finalizeRecord P sha256 installationId d = .ok r)
    (h' : finalizeRecord P sha256 installationId d' = .ok r')
    (hsource : ¬ SameObservation d d' ∨ ¬ SameLineage d d') : r.recordId ≠ r'.recordId := by
  obtain ⟨hid, -, -⟩ := finalizeRecord_ok h
  obtain ⟨hid', -, -⟩ := finalizeRecord_ok h'
  rw [Ne, deriveRecordId_eq_iff hsha hid hid', normal_dump_eq_iff plain_identityFields]
  intro hsame
  have hobservation := hsame (valueField P "observation" fun i => dump (observationFields P) i.observation)
    (by simp [identityFields])
  have hlineage := hsame (valueField P "source" fun i => dump (sourceIdentityFields P) i.source)
    (by simp [identityFields])
  rw [same_valueField] at hobservation hlineage
  rcases hsource with hsource | hsource
  · exact hsource hobservation
  · exact hsource ((normal_dump_eq_iff plain_sourceIdentityFields _ _).mp hlineage)

/-- Dedupe sources have one canonical form exactly if type, id and namespace agree after
composition. -/
theorem normal_dedupeSource_eq_iff (s s' : DedupeSourceV1) :
    normal P (dump (dedupeSourceFields P) s) = normal P (dump (dedupeSourceFields P) s') ↔
      normalizeString P.runtime s.type = normalizeString P.runtime s'.type ∧
      normalizeString P.runtime s.id = normalizeString P.runtime s'.id ∧
      normalizeString P.runtime s.observationNamespaceId =
        normalizeString P.runtime s'.observationNamespaceId := by
  rw [normal_dump_eq_iff plain_dedupeSourceFields]
  simp [dedupeSourceFields]

/-- **The dedupe key** depends on eight fields exactly. -/
theorem dedupeKey_eq_iff (hsha : Function.Injective sha256)
    (h : finalizeRecord P sha256 installationId d = .ok r)
    (h' : finalizeRecord P sha256 installationId d' = .ok r') :
    r.dedupeKey = r'.dedupeKey ↔ SameDedupe d d' := by
  obtain ⟨-, hdedupe, -⟩ := finalizeRecord_ok h
  obtain ⟨-, hdedupe', -⟩ := finalizeRecord_ok h'
  rw [deriveDedupeKey_eq_iff hsha hdedupe hdedupe', normal_dump_eq_iff plain_dedupeFields]
  simp only [dedupeFields, List.forall_mem_cons, same_valueField, same_textField,
    same_textOrNoneField, normalizeString_scopeText, normalizeString_recordType,
    normal_dedupeSource_eq_iff, RecordDedupeV1.fromIdentity,
    RecordDraftV1.identity, SourceDescriptorV1.identitySource, List.not_mem_nil, false_imp_iff,
    implies_true, and_true, true_and]
  constructor
  · rintro ⟨⟨htype, hid, hnamespace⟩, hscope, htarget, hrecord, hname, hobservation⟩
    exact ⟨htype, hid, hnamespace, hscope, htarget, hrecord, hname, hobservation⟩
  · intro hsame
    exact ⟨⟨hsame.sourceType, hsame.sourceId, hsame.namespaceId⟩, hsame.scope, hsame.targetId,
      hsame.recordType, hsame.name, hsame.observation⟩

/-- What a run adds to a draft is not content: two runs of one draft have the same content. -/
theorem sameContent_ofRun (d : RecordDraftV1 P) (operationId : String)
    (collectorRunId : Option String) (observedAt ingestedAt expiresAt : Stamp) (version : String) :
    SameContent d
      (d.ofRun operationId collectorRunId observedAt ingestedAt expiresAt version) where
  fields := by
    intro f hf hincluded hother
    simp only [draftFields, List.mem_cons, List.not_mem_nil, or_false] at hf
    rcases hf with rfl | rfl | rfl | rfl | rfl | rfl | rfl | rfl | rfl | rfl | rfl | rfl | rfl |
      rfl | rfl | rfl | rfl | rfl | rfl | rfl | rfl | rfl
    all_goals first
      | rfl
      | exact absurd rfl hother
      | exact absurd (by simp [contentExcluded, stampField, textField, textOrNoneField]) hincluded
  collector := by
    unfold RecordDraftV1.ofRun
    cases d.collector with
    | none => trivial
    | some c =>
        intro f hf hother
        simp only [collectorFields, List.mem_cons, List.not_mem_nil, or_false] at hf
        rcases hf with rfl | rfl | rfl | rfl
        · rfl
        · rfl
        · rfl
        · exact absurd rfl hother

/-- **What belongs to one run** is in none of the digests. -/
theorem digests_ofRun (hsha : Function.Injective sha256) {operationId : String}
    {collectorRunId : Option String} {observedAt ingestedAt expiresAt : Stamp} {version : String}
    (h : finalizeRecord P sha256 installationId d = .ok r)
    (h' : finalizeRecord P sha256 installationId
      (d.ofRun operationId collectorRunId observedAt ingestedAt expiresAt version) = .ok r') :
    r.recordId = r'.recordId ∧ r.dedupeKey = r'.dedupeKey ∧ r.contentHash = r'.contentHash := by
  obtain ⟨hid, hdedupe, -⟩ := finalizeRecord_ok h
  obtain ⟨hid', hdedupe', -⟩ := finalizeRecord_ok h'
  refine ⟨Except.ok.inj (hid.symm.trans hid'), Except.ok.inj (hdedupe.symm.trans hdedupe'), ?_⟩
  exact (contentHash_eq_iff hsha h h').mpr (sameContent_ofRun d _ _ _ _ _ _)

/-- **What the digests of a record depend on.** Nothing that belongs to one run is in any of them;
every other field is in the content hash; the lineage and the observation are in the record id; and
the dedupe key is eight fields exactly. -/
theorem finalized_digests (hsha : Function.Injective sha256)
    (h : finalizeRecord P sha256 installationId d = .ok r)
    (h' : finalizeRecord P sha256 installationId d' = .ok r') :
    (∀ operationId collectorRunId observedAt ingestedAt expiresAt version,
      d' = d.ofRun operationId collectorRunId observedAt ingestedAt expiresAt version →
        r.recordId = r'.recordId ∧ r.dedupeKey = r'.dedupeKey ∧ r.contentHash = r'.contentHash) ∧
      (r.contentHash = r'.contentHash ↔ SameContent d d') ∧
      (¬ SameObservation d d' ∨ ¬ SameLineage d d' → r.recordId ≠ r'.recordId) ∧
      (r.dedupeKey = r'.dedupeKey ↔ SameDedupe d d') := by
  refine ⟨?_, contentHash_eq_iff hsha h h', recordId_ne_of_source hsha h h',
    dedupeKey_eq_iff hsha h h'⟩
  rintro operationId collectorRunId observedAt ingestedAt expiresAt version rfl
  exact digests_ofRun hsha h h'

end Dependence

/-! ## A sample record -/

/-- The dump of an event without a message. -/
def sampleEvent : PyValue samplePlatform.runtime.Float :=
  .dict [("type", .str "event"), ("category", .str "deploy"), ("status", .str "ok"),
    ("attributes", .dict [])]

/-- The sample event has the shape the record contract asks for. -/
theorem sampleEvent_conforms : recordDataShape.Conforms sampleEvent := by
  unfold recordDataShape
  refine .union List.mem_cons_self (.model ?_)
  exact .take (.scalar rfl) (.take (.scalar rfl) (.take (.scalar rfl) (.skip
    (.take (.dict (Nat.zero_le _) nofun) .nil))))

def sampleInstallation : String := "mh_in1_00000000000040008000000000000000"

def sampleDraft : RecordDraftV1 samplePlatform where
  recordType := .event
  name := "deploy.finished"
  occurredAt := 1
  observedAt := 2
  ingestedAt := 3
  expiresAt := 4
  sourceEventId := none
  sourceEntityId := none
  operationId := "op-1"
  collectorRunId := some "run-1"
  scope := .installation
  source := ⟨"ci", "github", .collector, "mh_ns1_00000000000040008000000000000001",
    "0000000000000000000000000000000000000000000000000000000000000000",
    ⟨"event", [("id", .int 7)]⟩⟩
  collector := some ⟨"ci", "github", "1.2"⟩
  target := none
  severity := .info
  trustLevel := .authenticated
  privacyClass := .internal
  redactionVersion := "r1-e1"
  correlation := ⟨none, none, none, none⟩
  dimensions := [("ratio", .float SampleFloat.half)]
  data := sampleEvent
  data_conforms := sampleEvent_conforms

/-- Small text stays small when it is quoted. -/
theorem length_quoteString_le (text : String) :
    (encodeUtf8 (quoteString samplePlatform.runtime text)).length ≤ 24 * text.toList.length + 8 := by
  -- The longest escape has six characters and the longest encoding of one four bytes.
  have hescape : ∀ c, (escape c).length ≤ 6 := by
    intro c
    unfold escape
    split
    · exact Nat.le_add_left 2 4
    · split
      · exact Nat.le_refl 6
      · exact Nat.le_add_left 1 5
  have hencode : ∀ cs : List Char, (encodeUtf8 cs).length ≤ 4 * cs.length := by
    intro cs
    induction cs with
    | nil => exact Nat.le_refl 0
    | cons c cs ih =>
        have hc := c.utf8Size_le_four
        rw [encodeUtf8, List.flatMap_cons, ← encodeUtf8, List.length_append,
          String.length_utf8EncodeChar, List.length_cons]
        omega
  have hescapes : ∀ cs : List Char, (cs.flatMap escape).length ≤ 6 * cs.length := by
    intro cs
    induction cs with
    | nil => exact Nat.le_refl 0
    | cons c cs ih =>
        have hc := hescape c
        rw [List.flatMap_cons, List.length_append, List.length_cons]
        omega
  -- Normalizing the line ends drops characters and adds none.
  have hlines : ∀ cs : List Char, (normalizeLines cs).length ≤ cs.length := by
    intro cs
    fun_induction normalizeLines cs with
    | case1 rest ih => simp only [List.length_cons]; omega
    | case2 rest h ih => simp only [List.length_cons]; omega
    | case3 c rest h hne ih => simp only [List.length_cons]; omega
    | case4 => exact Nat.le_refl 0
  have htext : (normalizeString samplePlatform.runtime text).toList = normalizeLines text.toList :=
    String.toList_ofList
  have hquote : (quote (normalizeLines text.toList)).length =
      ((normalizeLines text.toList).flatMap escape).length + 2 := by
    rw [quote, List.length_append, List.length_cons]
    rfl
  have h1 := hencode (quote (normalizeLines text.toList))
  have h2 := hescapes (normalizeLines text.toList)
  have h3 := hlines text.toList
  rw [quoteString, htext]
  omega

/-- A digest of a small projection is small. -/
theorem domainDigest_small {domain : List UInt8} {v : PyValue samplePlatform.runtime.Float}
    (h : ((canonicalJsonBytes samplePlatform.runtime recordLimits v).toOption.any fun bytes =>
      bytes.length ≤ 1000) = true) (hdomain : domain.length ≤ 24) :
    ∃ digest, domainDigest samplePlatform id domain v = .ok digest ∧ digest.length ≤ 1024 := by
  unfold domainDigest
  cases hbytes : canonicalJsonBytes samplePlatform.runtime recordLimits v with
  | error e =>
      rw [hbytes] at h
      cases h
  | ok bytes =>
      rw [hbytes] at h
      refine ⟨domain ++ bytes, rfl, ?_⟩
      have hlength : bytes.length ≤ 1000 := of_decide_eq_true h
      rw [List.length_append]
      omega

/-- A token is as long as its start and its text together. -/
theorem length_token (start : String) (text : List Char) :
    (start ++ String.ofList text).toList.length = start.toList.length + text.length := by
  rw [String.toList_append, String.toList_ofList, List.length_append]

/-- A draft with small projections is finalized. -/
theorem exists_finalizeRecord {d : RecordDraftV1 samplePlatform} {installationId : String}
    (hid : ((canonicalJsonBytes samplePlatform.runtime recordLimits
      (dump (identityFields samplePlatform) (d.identity installationId))).toOption.any fun bytes =>
        bytes.length ≤ 1000) = true)
    (hdedupe : ((canonicalJsonBytes samplePlatform.runtime recordLimits
      (dump (dedupeFields samplePlatform) (.fromIdentity (d.identity installationId)))).toOption.any
        fun bytes => bytes.length ≤ 1000) = true)
    (hcontent : ((canonicalJsonBytes samplePlatform.runtime recordLimits
      (.dict (contentProjection (dumpFields (draftFields samplePlatform) d)))).toOption.any
        fun bytes => bytes.length ≤ 1000) = true)
    (hdraft : ((canonicalJsonBytes samplePlatform.runtime recordLimits
      (dump (draftFields samplePlatform) d)).toOption.any fun bytes => bytes.length ≤ 1000) = true)
    (hnodes : (dump (draftFields samplePlatform) d).nodes + 3 ≤ recordLimits.maxNodes) :
    ∃ r, finalizeRecord samplePlatform id installationId d = .ok r := by
  -- The three identities are small enough to be hashed.
  obtain ⟨idDigest, hidOk, hidSize⟩ := @domainDigest_small recordIdDomain _ hid (by decide)
  obtain ⟨dedupeDigest, hdedupeOk, hdedupeSize⟩ :=
    @domainDigest_small dedupeDomain _ hdedupe (by decide)
  obtain ⟨contentDigest, hcontentOk, hcontentSize⟩ :=
    @domainDigest_small contentDomain _ hcontent (by decide)
  let r : RecordEnvelopeV1 samplePlatform := ⟨d, "mh_" ++ base32Digest idDigest,
    "mh_d1_" ++ base32Digest dedupeDigest, String.ofList (Radix.hex contentDigest)⟩
  refine ⟨r, @finalizeRecord_of _ _ _ r ?_ ?_ ?_ ?_⟩
  · exact Except.bind_eq_ok_iff.mpr ⟨idDigest, hidOk, rfl⟩
  · exact Except.bind_eq_ok_iff.mpr ⟨dedupeDigest, hdedupeOk, rfl⟩
  · exact Except.bind_eq_ok_iff.mpr ⟨contentDigest, hcontentOk, rfl⟩
  -- The envelope adds three short texts to the draft, so its bytes stay far below the bound.
  · cases hbytes : canonicalJsonBytes samplePlatform.runtime recordLimits
        (dump (draftFields samplePlatform) d) with
    | error e =>
        rw [hbytes] at hdraft
        cases hdraft
    | ok bytes =>
        rw [hbytes] at hdraft
        have hlength : bytes.length ≤ 1000 := of_decide_eq_true hdraft
        have hidText := length_quoteString_le r.recordId
        have hdedupeText := length_quoteString_le r.dedupeKey
        have hcontentText := length_quoteString_le r.contentHash
        have hidBase := Radix.length_base32_le idDigest
        have hdedupeBase := Radix.length_base32_le dedupeDigest
        have hcontentHex := Radix.length_hex contentDigest
        have hmax : recordLimits.maxBytes = 262144 := rfl
        have hidLength : r.recordId.toList.length = 3 + (Radix.base32 idDigest).length :=
          length_token "mh_" _
        have hdedupeLength : r.dedupeKey.toList.length = 6 + (Radix.base32 dedupeDigest).length :=
          length_token "mh_d1_" _
        have hcontentLength : r.contentHash.toList.length = (Radix.hex contentDigest).length :=
          congrArg List.length String.toList_ofList
        exact validateEnvelope_of hbytes hnodes (by omega)

/-- The sample event, as a newer collector reports it in a later run. -/
def sampleAgain : RecordDraftV1 samplePlatform :=
  sampleDraft.ofRun "op-2" (some "run-2") 5 6 7 "1.3"

/-- The event is known again by each of its digests, so each of the conditions is met. -/
theorem finalized_digests_sample : ∃ r r',
    finalizeRecord samplePlatform id sampleInstallation sampleDraft = .ok r ∧
      finalizeRecord samplePlatform id sampleInstallation sampleAgain = .ok r' ∧
      (r.recordId = r'.recordId ∧ r.dedupeKey = r'.dedupeKey ∧ r.contentHash = r'.contentHash) ∧
      SameContent sampleDraft sampleAgain ∧
      (SameObservation sampleDraft sampleAgain ∧ SameLineage sampleDraft sampleAgain) ∧
      SameDedupe sampleDraft sampleAgain := by
  have hid : ((canonicalJsonBytes samplePlatform.runtime recordLimits
      (dump (identityFields samplePlatform) (sampleDraft.identity sampleInstallation))).toOption.any
        fun bytes => bytes.length ≤ 1000) = true := by decide +kernel
  have hdedupe : ((canonicalJsonBytes samplePlatform.runtime recordLimits
      (dump (dedupeFields samplePlatform)
        (.fromIdentity (sampleDraft.identity sampleInstallation)))).toOption.any
          fun bytes => bytes.length ≤ 1000) = true := by decide +kernel
  have hcontent : ((canonicalJsonBytes samplePlatform.runtime recordLimits (.dict (contentProjection
      (dumpFields (draftFields samplePlatform) sampleDraft)))).toOption.any
        fun bytes => bytes.length ≤ 1000) = true := by decide +kernel
  have hr := @exists_finalizeRecord sampleDraft sampleInstallation hid hdedupe hcontent
    (by decide +kernel) (by decide +kernel)
  have hr' := @exists_finalizeRecord sampleAgain sampleInstallation hid hdedupe hcontent
    (by decide +kernel) (by decide +kernel)
  obtain ⟨r, hr⟩ := hr
  obtain ⟨r', hr'⟩ := hr'
  obtain ⟨hrun, hcontent, hdiffer, hdedupe⟩ := finalized_digests Function.injective_id hr hr'
  obtain ⟨hidSame, hdedupeSame, hcontentSame⟩ := hrun _ _ _ _ _ _ rfl
  refine ⟨r, r', hr, hr', ⟨hidSame, hdedupeSame, hcontentSame⟩, hcontent.mp hcontentSame, ?_,
    hdedupe.mp hdedupeSame⟩
  by_contra hother
  exact hdiffer (not_and_or.mp hother) hidSame

end Milhouse.Domain
