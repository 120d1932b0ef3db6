import Milhouse.Alerts.Records
import Milhouse.Core.Canonical
import Milhouse.Spool.Segment

/-!
# Milhouse — the record envelope as the wire sees it

The wire needs of a record its scope, its target, its privacy class, its id and its dump:
`model_dump(mode="python", exclude_none=True)`. A `ModelShape` says what the dump of a model can be: its
fields in their order, those that are `None` left out, with bounded lists and objects of scalars. A
`RecordEnvelopeV1` carries the proofs that its dump has the shape of the envelope model and passed
the canonical bound of its own validator, so no other record can be built.

* **`ModelShape.Conforms.nodes_le`**, **`ModelShape.Conforms.height_le`** — a shape bounds the values of a dump
  and their nesting.
-/

namespace Milhouse

/-! ## Shapes -/

inductive ModelShape where
  | scalar
  /-- A list of at most `limit` scalars. -/
  | list (limit : Nat)
  /-- An object of at most `limit` scalars. -/
  | dict (limit : Nat)
  | model (fields : List (String × ModelShape))
  | union (shapes : List ModelShape)

/-- A value that is no container. -/
def PyValue.isScalar {Float : Type} : PyValue Float → Bool
  | .list _ | .dict _ => false
  | _ => true

mutual

/-- A value is the dump of a model of this shape. -/
inductive ModelShape.Conforms {Float : Type} : ModelShape → PyValue Float → Prop where
  | scalar {v : PyValue Float} (h : v.isScalar = true) : ModelShape.Conforms .scalar v
  | list {limit : Nat} {xs : List (PyValue Float)} (hlength : xs.length ≤ limit)
      (h : ∀ x ∈ xs, x.isScalar = true) : ModelShape.Conforms (.list limit) (.list xs)
  | dict {limit : Nat} {ms : List (String × PyValue Float)} (hlength : ms.length ≤ limit)
      (h : ∀ m ∈ ms, m.2.isScalar = true) : ModelShape.Conforms (.dict limit) (.dict ms)
  | model {fields : List (String × ModelShape)} {ms : List (String × PyValue Float)}
      (h : FieldsConform fields ms) : ModelShape.Conforms (.model fields) (.dict ms)
  | union {shapes : List ModelShape} {shape : ModelShape} {v : PyValue Float} (hmem : shape ∈ shapes)
      (h : ModelShape.Conforms shape v) : ModelShape.Conforms (.union shapes) v

/-- The members are fields in their order; a field that is `None` is left out. -/
inductive FieldsConform {Float : Type} :
    List (String × ModelShape) → List (String × PyValue Float) → Prop where
  | nil : FieldsConform [] []
  | skip {field : String × ModelShape} {fields : List (String × ModelShape)}
      {ms : List (String × PyValue Float)} (h : FieldsConform fields ms) :
      FieldsConform (field :: fields) ms
  | take {name : String} {shape : ModelShape} {fields : List (String × ModelShape)} {v : PyValue Float}
      {ms : List (String × PyValue Float)} (hv : ModelShape.Conforms shape v)
      (h : FieldsConform fields ms) :
      FieldsConform ((name, shape) :: fields) ((name, v) :: ms)

end

mutual

/-- The most values a dump of the shape has. -/
def ModelShape.maxNodes : ModelShape → Nat
  | .scalar => 1
  | .list limit => 1 + limit
  | .dict limit => 1 + limit
  | .model fields => 1 + ModelShape.fieldNodes fields
  | .union shapes => ModelShape.unionNodes shapes

def ModelShape.fieldNodes : List (String × ModelShape) → Nat
  | [] => 0
  | (_, shape) :: rest => shape.maxNodes + ModelShape.fieldNodes rest

def ModelShape.unionNodes : List ModelShape → Nat
  | [] => 0
  | shape :: rest => max shape.maxNodes (ModelShape.unionNodes rest)

end

mutual

/-- The deepest nesting of a dump of the shape. -/
def ModelShape.maxHeight : ModelShape → Nat
  | .scalar => 0
  | .list _ | .dict _ => 1
  | .model fields => 1 + ModelShape.fieldHeight fields
  | .union shapes => ModelShape.unionHeight shapes

def ModelShape.fieldHeight : List (String × ModelShape) → Nat
  | [] => 0
  | (_, shape) :: rest => max shape.maxHeight (ModelShape.fieldHeight rest)

def ModelShape.unionHeight : List ModelShape → Nat
  | [] => 0
  | shape :: rest => max shape.maxHeight (ModelShape.unionHeight rest)

end

section Bounds

variable {Float : Type}

theorem PyValue.nodes_scalar {v : PyValue Float} (h : v.isScalar = true) :
    v.nodes = 1 ∧ v.height = 0 := by
  cases v with
  | list xs => cases h
  | dict ms => cases h
  | _ => exact ⟨rfl, rfl⟩

theorem elementNodes_scalars {xs : List (PyValue Float)} (h : ∀ x ∈ xs, x.isScalar = true) :
    PyValue.elementNodes xs = xs.length ∧ PyValue.elementHeight xs = 0 := by
  induction xs with
  | nil => exact ⟨rfl, rfl⟩
  | cons x xs ih =>
      obtain ⟨hnodes, hheight⟩ := ih fun y hy => h y (List.mem_cons_of_mem _ hy)
      obtain ⟨hx, hx'⟩ := PyValue.nodes_scalar (h x List.mem_cons_self)
      rw [PyValue.elementNodes, PyValue.elementHeight, hnodes, hheight, hx, hx', List.length_cons]
      exact ⟨by omega, rfl⟩

theorem memberNodes_scalars {ms : List (String × PyValue Float)}
    (h : ∀ m ∈ ms, m.2.isScalar = true) :
    PyValue.memberNodes ms = ms.length ∧ PyValue.memberHeight ms = 0 := by
  induction ms with
  | nil => exact ⟨rfl, rfl⟩
  | cons m ms ih =>
      obtain ⟨hnodes, hheight⟩ := ih fun y hy => h y (List.mem_cons_of_mem _ hy)
      obtain ⟨hx, hx'⟩ := PyValue.nodes_scalar (h m List.mem_cons_self)
      rw [PyValue.memberNodes, PyValue.memberHeight, hnodes, hheight, hx, hx', List.length_cons]
      exact ⟨by omega, rfl⟩

theorem ModelShape.maxNodes_le_union {shapes : List ModelShape} {shape : ModelShape} (h : shape ∈ shapes) :
    shape.maxNodes ≤ ModelShape.unionNodes shapes ∧ shape.maxHeight ≤ ModelShape.unionHeight shapes := by
  induction shapes with
  | nil => cases h
  | cons first rest ih =>
      rw [ModelShape.unionNodes, ModelShape.unionHeight]
      rcases List.mem_cons.mp h with rfl | h
      · exact ⟨le_max_left _ _, le_max_left _ _⟩
      · obtain ⟨hnodes, hheight⟩ := ih h
        exact ⟨hnodes.trans (le_max_right _ _), hheight.trans (le_max_right _ _)⟩

mutual

/-- **A shape bounds the number of values** of its dumps. -/
theorem ModelShape.Conforms.nodes_le {shape : ModelShape} {v : PyValue Float} (h : shape.Conforms v) :
    v.nodes ≤ shape.maxNodes := by
  cases h with
  | scalar h =>
      rw [(PyValue.nodes_scalar h).1]
      exact le_refl 1
  | list hlength h =>
      rw [PyValue.nodes, (elementNodes_scalars h).1, ModelShape.maxNodes]
      omega
  | dict hlength h =>
      rw [PyValue.nodes, (memberNodes_scalars h).1, ModelShape.maxNodes]
      omega
  | model h =>
      have hfields := h.nodes_le
      rw [PyValue.nodes, ModelShape.maxNodes]
      omega
  | union hmem h =>
      have hshape := h.nodes_le
      rw [ModelShape.maxNodes]
      exact hshape.trans (ModelShape.maxNodes_le_union hmem).1

theorem FieldsConform.nodes_le {fields : List (String × ModelShape)}
    {ms : List (String × PyValue Float)} (h : FieldsConform fields ms) :
    PyValue.memberNodes ms ≤ ModelShape.fieldNodes fields := by
  cases h with
  | nil => exact le_refl 0
  | skip h =>
      have hrest := h.nodes_le
      rw [ModelShape.fieldNodes]
      omega
  | take hv h =>
      have hvalue := hv.nodes_le
      have hrest := h.nodes_le
      rw [ModelShape.fieldNodes, PyValue.memberNodes]
      omega

end

mutual

/-- **A shape bounds the nesting** of its dumps. -/
theorem ModelShape.Conforms.height_le {shape : ModelShape} {v : PyValue Float} (h : shape.Conforms v) :
    v.height ≤ shape.maxHeight := by
  cases h with
  | scalar h =>
      rw [(PyValue.nodes_scalar h).2]
      exact Nat.zero_le _
  | list hlength h =>
      rw [PyValue.height, (elementNodes_scalars h).2]
      exact le_refl 1
  | dict hlength h =>
      rw [PyValue.height, (memberNodes_scalars h).2]
      exact le_refl 1
  | model h =>
      have hfields := h.height_le
      rw [PyValue.height, ModelShape.maxHeight]
      omega
  | union hmem h =>
      have hshape := h.height_le
      rw [ModelShape.maxHeight]
      exact hshape.trans (ModelShape.maxNodes_le_union hmem).2

theorem FieldsConform.height_le {fields : List (String × ModelShape)}
    {ms : List (String × PyValue Float)} (h : FieldsConform fields ms) :
    PyValue.memberHeight ms ≤ ModelShape.fieldHeight fields := by
  cases h with
  | nil => exact le_refl 0
  | skip h =>
      have hrest := h.height_le
      rw [ModelShape.fieldHeight]
      exact hrest.trans (le_max_right _ _)
  | take hv h =>
      have hvalue := hv.height_le
      have hrest := h.height_le
      rw [ModelShape.fieldHeight, PyValue.memberHeight]
      exact max_le_max hvalue hrest

end

end Bounds

/-! ## The models -/

/-- Scalar fields. -/
def scalars (names : List String) : List (String × ModelShape) := names.map fun name => (name, .scalar)

def maxDimensions : Nat := 100

/-- `DimensionsV1` and `SafeCountsV1`. -/
def dimensionsShape : ModelShape := .dict maxDimensions

/-- `EvidenceIdsV1`. -/
def evidenceIdsShape : ModelShape := .list 100

/-- `ObservationCoordinateV1`. -/
def observationShape : ModelShape := .model [("kind", .scalar), ("parts", .dict 16)]

/-- `SourceDescriptorV1`. -/
def sourceShape : ModelShape :=
  .model (scalars ["id", "type", "producer", "observation_namespace_id",
    "source_generation_digest"] ++ [("observation", observationShape)])

/-- `CollectorDescriptorV1`. -/
def collectorShape : ModelShape :=
  .model (scalars ["id", "type", "plugin_api_version", "implementation_version"])

/-- `TargetDescriptorV1`. -/
def targetShape : ModelShape := .model (scalars ["id", "name", "kind", "environment"])

/-- `CorrelationV1`. -/
def correlationShape : ModelShape := .model (scalars ["trace_id", "run_id", "deploy_id", "commit_id"])

/-- `ActorReferenceV1`. -/
def actorShape : ModelShape := .model (scalars ["type", "id"])

/-- `EventDataV1`. -/
def eventShape : ModelShape :=
  .model (scalars ["type", "category", "status", "message"] ++ [("attributes", dimensionsShape)])

/-- `MetricDataV1`. -/
def metricShape : ModelShape :=
  .model (scalars ["type", "value", "unit", "metric_semantics", "window_start", "window_end"])

/-- `SpanDataV1`. -/
def spanShape : ModelShape :=
  .model (scalars ["type", "trace_id", "span_id", "parent_span_id", "duration_ms", "status"])

/-- `RunDataV1`. -/
def runShape : ModelShape :=
  .model (scalars ["type", "run_id", "run_type", "status", "started_at", "ended_at",
    "duration_ms"] ++ [("counts", dimensionsShape)])

/-- `AlertDataV1`. -/
def alertShape : ModelShape :=
  .model (scalars ["type", "alert_key", "rule_id", "rule_version", "transition_id", "revision",
    "previous_state", "state"] ++ [("triggering_observation", observationShape)] ++
    scalars ["severity", "summary"] ++ [("evidence_ids", evidenceIdsShape)])

/-- `NotificationIntentDataV1`. -/
def notificationIntentShape : ModelShape :=
  .model (scalars ["type", "intent_id", "alert_key", "transition_id", "channel_id",
    "channel_type", "severity", "summary"] ++ [("evidence_ids", evidenceIdsShape)])

/-- `IncidentDataV1`. -/
def incidentShape : ModelShape :=
  .model (scalars ["type", "incident_key", "transition_id", "revision", "previous_state",
    "transition", "state"] ++ [("triggering_observation", observationShape)] ++
    scalars ["severity", "summary"] ++ [("evidence_ids", evidenceIdsShape)])

/-- `VerificationPredicateV1`. -/
def predicateShape : ModelShape :=
  .union [.model (scalars ["type", "state"]), .model (scalars ["type"]),
    .model (scalars ["type", "threshold"]), .model (scalars ["type", "threshold", "unit"])]

/-- `VerificationSpecV1`. -/
def verificationSpecShape : ModelShape :=
  .model (scalars ["schema_version", "rule_id", "rule_version", "target_id", "signal_class"] ++
    [("record_names", .list 32), ("dimensions", dimensionsShape), ("predicate", predicateShape)] ++
    scalars ["minimum_observations", "observation_window_seconds", "deadline",
      "allowed_lateness_seconds"])

/-- `FeedbackItemDataV1`. -/
def feedbackItemShape : ModelShape :=
  .model (scalars ["type", "item_id", "fingerprint", "created_at", "state", "revision",
    "target_id", "title", "summary", "recommendation", "severity", "priority", "actionability",
    "confidence"] ++ [("owner", actorShape), ("evidence_ids", evidenceIdsShape),
    ("verification_spec", verificationSpecShape)] ++ scalars ["trust_level", "privacy_class"])

/-- `FeedbackTransitionDataV1`. -/
def feedbackTransitionShape : ModelShape :=
  .model (scalars ["type", "transition_id", "item_id", "from_state", "to_state", "revision",
    "expected_revision"] ++ [("actor", actorShape)] ++
    scalars ["timestamp", "rationale", "request_id"] ++
    [("evidence_ids", evidenceIdsShape), ("owner", actorShape)] ++
    scalars ["clear_owner", "change_reference"] ++
    [("validation_evidence_ids", evidenceIdsShape)])

/-- `AuditDataV1`. -/
def auditShape : ModelShape :=
  .model ([("type", .scalar), ("action", .scalar), ("actor", actorShape),
    ("resource_ids", .list 100)] ++ scalars ["outcome", "reason_code"] ++
    [("counts", dimensionsShape)])

/-- `RecordDataV1`. -/
def recordDataShape : ModelShape :=
  .union [eventShape, metricShape, spanShape, runShape, alertShape, notificationIntentShape,
    incidentShape, feedbackItemShape, feedbackTransitionShape, auditShape]

/-- `RecordEnvelopeV1`. -/
def recordShape : ModelShape :=
  .model (scalars ["schema_version", "record_type", "name", "occurred_at", "observed_at",
    "ingested_at", "expires_at", "source_event_id", "source_entity_id", "operation_id",
    "collector_run_id", "scope"] ++
    [("source", sourceShape), ("collector", collectorShape), ("target", targetShape)] ++
    scalars ["severity", "trust_level", "privacy_class", "redaction_version"] ++
    [("correlation", correlationShape), ("dimensions", dimensionsShape),
      ("data", recordDataShape)] ++ scalars ["record_id", "dedupe_key", "content_hash"])

set_option maxRecDepth 10000 in
theorem recordShape_bounds : recordShape.maxNodes ≤ 1000 ∧ recordShape.maxHeight ≤ 8 := by decide

/-! ## The envelope -/

def maxRecordBytes : Nat := 262144

def recordLimits : CanonicalLimits := ⟨defaultMaxDepth, defaultMaxNodes, maxRecordBytes⟩

/-- A finalized record that passed its own validators. -/
structure RecordEnvelopeV1 (rt : CanonicalRuntime) where
  scope : Scope
  /-- `record.target.id`, where there is a target. -/
  targetId : Option String
  privacyClass : PrivacyClass
  recordId : String
  expiresAt : Stamp
  /-- `model_dump(mode="python", exclude_none=True)`. -/
  dump : PyValue rt.Float
  recordId_valid : matchesRecordId recordId = true
  shaped : recordShape.Conforms dump
  canonical : ∃ bytes, canonicalJsonBytes rt recordLimits dump = .ok bytes

end Milhouse
