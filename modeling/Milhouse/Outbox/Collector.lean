import Milhouse.Domain.Finalize
import Milhouse.Outbox.Frame

/-!
# Milhouse — the records of outbox frames

The collector makes an event draft of every frame that a read gives, and the pipeline stamps it with
the redaction policy that was applied and finalizes it. Each run has an instant and a redactor of its
own; what a record is known by is the frame, the offset of its line, and what the installation and
its configuration fix.

* **`recordId_of_entry`** — a record id is derived from these;
* **`recordId_ne_of_offset`** — frames at two offsets have two ids, unless two hashed contents
  collide.
-/

namespace Milhouse.Domain

/-! ## The free texts of a record's data -/

/-- `_FREE_TEXT_FIELDS`. -/
def freeTextFields : String → Option (List String)
  | "event" => some ["message"]
  | "metric" => some []
  | "run" => some []
  | "span" => some []
  | "alert" => some ["summary"]
  | "notification_intent" => some ["summary"]
  | "feedback_item" => some ["title", "summary", "recommendation"]
  | "feedback_transition" => some ["rationale"]
  | _ => none

section Redact

variable {Float : Type} (redact : String → Except DomainError String)

/-- One turn of the loop over the free texts of a dump: the one of this name, where it is a text. -/
def redactFreeText (name : String) :
    List (String × PyValue Float) → Except DomainError (List (String × PyValue Float))
  | [] => .ok []
  | (key, value) :: rest =>
      if key = name then
        match value with
        | .str text => do
            let redacted ← redact text
            .ok ((key, .str redacted) :: rest)
        | value => .ok ((key, value) :: rest)
      else do
        let rest ← redactFreeText name rest
        .ok ((key, value) :: rest)

/-- The loop over the free texts of a dump. -/
def redactFreeTexts :
    List String → List (String × PyValue Float) → Except DomainError (List (String × PyValue Float))
  | [], members => .ok members
  | name :: names, members => do
      let members ← redactFreeText redact name members
      redactFreeTexts names members

/-- Members with the same keys, and with the same values but for their texts. -/
def Retexted (members members' : List (String × PyValue Float)) : Prop :=
  List.Forall₂ (fun m m' => m.1 = m'.1 ∧
    (m.2 = m'.2 ∨ ∃ text text', m.2 = .str text ∧ m'.2 = .str text')) members members'

variable {redact}

theorem Retexted.refl (members : List (String × PyValue Float)) : Retexted members members := by
  unfold Retexted
  induction members with
  | nil => exact .nil
  | cons m members ih => exact .cons ⟨rfl, .inl rfl⟩ ih

theorem redactFreeText_retexted {name : String} {members members' : List (String × PyValue Float)}
    (h : redactFreeText redact name members = .ok members') : Retexted members members' := by
  induction members generalizing members' with
  | nil =>
      obtain rfl := Except.ok.inj h
      exact .nil
  | cons m rest ih =>
      obtain ⟨key, value⟩ := m
      unfold redactFreeText at h
      split at h
      · split at h
        · rename_i text
          obtain ⟨redacted, -, h⟩ := Except.bind_eq_ok_iff.mp h
          obtain rfl := Except.ok.inj h
          exact .cons ⟨rfl, .inr ⟨text, redacted, rfl, rfl⟩⟩ (Retexted.refl rest)
        · obtain rfl := Except.ok.inj h
          exact Retexted.refl _
      · obtain ⟨rest', hrest, h⟩ := Except.bind_eq_ok_iff.mp h
        obtain rfl := Except.ok.inj h
        exact .cons ⟨rfl, .inl rfl⟩ (ih hrest)

/-- A shape that a text has, every text has. -/
theorem conforms_str {shape : ModelShape} {text text' : String}
    (h : shape.Conforms (.str text : PyValue Float)) :
    shape.Conforms (.str text' : PyValue Float) := by
  cases h with
  | scalar _ => exact .scalar rfl
  | union hmem h => exact .union hmem (conforms_str h)

theorem isScalar_retexted {v v' : PyValue Float}
    (h : v = v' ∨ ∃ text text', v = .str text ∧ v' = .str text') (hv : v.isScalar = true) :
    v'.isScalar = true := by
  rcases h with rfl | ⟨text, text', rfl, rfl⟩
  · exact hv
  · rfl

theorem scalars_retexted {members members' : List (String × PyValue Float)}
    (h : ∀ m ∈ members, m.2.isScalar = true) (hretexted : Retexted members members') :
    ∀ m ∈ members', m.2.isScalar = true := by
  unfold Retexted at hretexted
  induction hretexted with
  | nil => exact h
  | cons hm _ ih =>
      obtain ⟨hfirst, hrest⟩ := List.forall_mem_cons.mp h
      exact List.forall_mem_cons.mpr ⟨isScalar_retexted hm.2 hfirst, ih hrest⟩

theorem fieldsConform_retexted {fields : List (String × ModelShape)}
    {members members' : List (String × PyValue Float)} (h : FieldsConform fields members)
    (hretexted : Retexted members members') : FieldsConform fields members' := by
  cases h with
  | nil =>
      cases hretexted
      exact .nil
  | skip h => exact .skip (fieldsConform_retexted h hretexted)
  | take hv h =>
      cases hretexted with
      | @cons _ m' _ _ hm hrest =>
          obtain ⟨key, value⟩ := m'
          obtain ⟨rfl, hvalue⟩ := hm
          refine .take ?_ (fieldsConform_retexted h hrest)
          rcases hvalue with rfl | ⟨text, text', rfl, rfl⟩
          · exact hv
          · exact conforms_str hv

/-- **A dump keeps its shape** where its texts are replaced by others. -/
theorem conforms_retexted {shape : ModelShape} {members members' : List (String × PyValue Float)}
    (h : shape.Conforms (.dict members)) (hretexted : Retexted members members') :
    shape.Conforms (.dict members') := by
  cases h with
  | scalar h => cases h
  | dict hlength hscalar =>
      exact .dict (List.Forall₂.length_eq hretexted ▸ hlength) (scalars_retexted hscalar hretexted)
  | model h => exact .model (fieldsConform_retexted h hretexted)
  | union hmem h => exact .union hmem (conforms_retexted h hretexted)

theorem conforms_redactFreeTexts {names : List String} {shape : ModelShape}
    {members members' : List (String × PyValue Float)} (hshape : shape.Conforms (.dict members))
    (h : redactFreeTexts redact names members = .ok members') : shape.Conforms (.dict members') := by
  induction names generalizing members with
  | nil =>
      obtain rfl := Except.ok.inj h
      exact hshape
  | cons name names ih =>
      obtain ⟨next, hnext, h⟩ := Except.bind_eq_ok_iff.mp h
      exact ih (conforms_retexted hshape (redactFreeText_retexted hnext)) h

end Redact

/-! ## The pipeline's part -/

/-- What a run redacts with: the version of its policy and key, and `redact(text).value`. -/
structure Redactor where
  version : String
  redact : String → Except DomainError String

section Finalize

variable {P : CanonicalPlatform} (sha256 : List UInt8 → List UInt8)
  (acceptsDraft : RecordDraftV1 P → Bool)

/-- The free texts that the type of a dump has; a type that is no text has no policy. -/
def freeTextPolicy {Float : Type} (members : List (String × PyValue Float)) : Option (List String) :=
  match members.lookup "type" with
  | some (.str type) => freeTextFields type
  | _ => none

/-- `_redact_draft`, but for the validators. -/
def redactDraft (redactor : Redactor) (draft : RecordDraftV1 P) :
    Except DomainError (RecordDraftV1 P) :=
  match hdata : draft.data with
  | .dict members =>
      match freeTextPolicy members with
      | none => .error
          ⟨"MH_RUNTIME_PIPELINE_REDACTION", "no redaction policy governs the record type"⟩
      | some names =>
          match hredacted : redactFreeTexts redactor.redact names members with
          | .error error => .error error
          | .ok members' => .ok { draft with
              redactionVersion := redactor.version
              data := .dict members'
              data_conforms := conforms_redactFreeTexts (hdata ▸ draft.data_conforms) hredacted }
  | _ => .ok { draft with redactionVersion := redactor.version }

/-- A draft that its validators refuse. -/
def draftInvalid : DomainError := ⟨"milhouse_record_invalid", "record input is invalid"⟩

/-- `RuntimePipeline._finalize`. -/
def finalizeDraft (installationId : String) (redactor : Redactor) (draft : RecordDraftV1 P) :
    Except DomainError (RecordEnvelopeV1 P) := do
  let redacted ← redactDraft redactor draft
  if acceptsDraft redacted then finalizeRecord P sha256 installationId redacted
  else .error draftInvalid

variable {sha256 acceptsDraft}

/-- Redaction stamps its policy into the identity of a draft, and leaves the rest of it. -/
theorem identity_redactDraft {redactor : Redactor} {draft redacted : RecordDraftV1 P}
    (h : redactDraft redactor draft = .ok redacted) (installationId : String) :
    redacted.identity installationId =
      { draft.identity installationId with redactionVersion := redactor.version } := by
  unfold redactDraft at h
  split at h
  · split at h
    · cases h
    · split at h
      · cases h
      · obtain rfl := Except.ok.inj h
        rfl
  · obtain rfl := Except.ok.inj h
    rfl

/-- **A draft is finalized under its identity** with the policy of the run. -/
theorem recordId_finalizeDraft {installationId : String} {redactor : Redactor}
    {draft : RecordDraftV1 P} {record : RecordEnvelopeV1 P}
    (h : finalizeDraft sha256 acceptsDraft installationId redactor draft = .ok record) :
    deriveRecordId P sha256
      { draft.identity installationId with redactionVersion := redactor.version } =
        .ok record.recordId := by
  obtain ⟨redacted, hredacted, h⟩ := Except.bind_eq_ok_iff.mp h
  obtain ⟨-, h⟩ : acceptsDraft redacted = true ∧
      finalizeRecord P sha256 installationId redacted = .ok record := by
    split at h
    · rename_i haccepted
      exact ⟨haccepted, h⟩
    · cases h
  rw [← identity_redactDraft hredacted]
  exact (finalizeRecord_ok h).1

/-! ## Colliding identities -/

/-- What the record id of an identity is the digest of. -/
def hashedIdentity (identity : RecordIdentityV1 P) : Option (List UInt8) :=
  (canonicalJsonBytes P.runtime recordLimits (dump (identityFields P) identity)).toOption.map
    (recordIdDomain ++ ·)

/-- Two identities are hashed as different contents with one digest. -/
def Collide (sha256 : List UInt8 → List UInt8) (i j : RecordIdentityV1 P) : Prop :=
  ∃ x y, hashedIdentity i = some x ∧ hashedIdentity j = some y ∧ x ≠ y ∧ sha256 x = sha256 y

/-- A record id is the token of the digest of its hashed identity. -/
theorem deriveRecordId_hashed {identity : RecordIdentityV1 P} {id : String}
    (h : deriveRecordId P sha256 identity = .ok id) :
    ∃ bytes, canonicalJsonBytes P.runtime recordLimits (dump (identityFields P) identity) =
        .ok bytes ∧ id = "mh_" ++ base32Digest (sha256 (recordIdDomain ++ bytes)) := by
  obtain ⟨digest, hdigest, h⟩ := Except.bind_eq_ok_iff.mp h
  obtain rfl := Except.ok.inj h
  unfold domainDigest at hdigest
  split at hdigest
  · cases hdigest
  · rename_i bytes hbytes
    obtain rfl := Except.ok.inj hdigest
    exact ⟨bytes, hbytes, rfl⟩

/-- **Identities with one record id** have one canonical form, unless they collide. -/
theorem normal_or_collide {i j : RecordIdentityV1 P} {id : String}
    (hi : deriveRecordId P sha256 i = .ok id) (hj : deriveRecordId P sha256 j = .ok id) :
    normal P (dump (identityFields P) i) = normal P (dump (identityFields P) j) ∨
      Collide sha256 i j := by
  obtain ⟨x, hx, rfl⟩ := deriveRecordId_hashed hi
  obtain ⟨y, hy, htoken⟩ := deriveRecordId_hashed hj
  have hdigest := (token_eq_iff "mh_" _ _).mp htoken
  by_cases heq : x = y
  · exact .inl ((canonicalJsonBytes_eq_iff hx hy).mp heq)
  · refine .inr ⟨recordIdDomain ++ x, recordIdDomain ++ y, ?_, ?_, ?_, hdigest⟩
    · unfold hashedIdentity
      rw [hx]
      rfl
    · unfold hashedIdentity
      rw [hy]
      rfl
    · exact fun h => heq (List.append_cancel_left h)

end Finalize

end Milhouse.Domain

namespace Milhouse.Outbox

open Json PyJson Text Domain

/-! ## The collector -/

section Collector

variable {P : CanonicalPlatform} (outbox : OutboxRuntime P)
  (acceptsDraft : RecordDraftV1 P → Bool)

def collectorType : String := "file.outbox"
def implementationVersion : String := "1.0.0"
def sourceType : String := "source.outbox"
def recordName : String := "outbox.frame"
def observationKind : String := "outbox.frame"
def outboxNamespace : String := "mh_ns1_0b17c0d1e2f34a5b8c6d7e8f9a0b1c2d"

/-- `_NOMINAL_EXPIRY`. -/
def nominalExpiry : Nat := 30 * dayMillis

def maxDimensionValueBytes : Nat := 2048

/-- What a run hands to the collector, as far as it is used for drafts. -/
structure CollectorContext where
  now : Stamp
  collector : CollectorDescriptorV1
  target : Option TargetDescriptorV1
  redactor : Redactor

/-- The descriptor of a collector with this id. -/
def collectorDescriptor (id : String) : CollectorDescriptorV1 :=
  ⟨id, collectorType, implementationVersion⟩

/-- `encoded[:budget].decode("utf-8", errors="ignore")`: the characters that fit. -/
def takeBytes : Nat → List Char → List Char
  | _, [] => []
  | budget, c :: rest => if c.utf8Size ≤ budget then c :: takeBytes (budget - c.utf8Size) rest else []

/-- `_clamp_dimension_value`. -/
def clampDimensionValue (value : String) : String :=
  if (encodeUtf8 value.toList).length ≤ maxDimensionValueBytes then value
  else
    String.ofList (takeBytes (maxDimensionValueBytes - "[mh:clamp]".length) value.toList) ++
      "[mh:clamp]"

/-- `_redact_attributes`. -/
def redactAttributes (redact : String → Except DomainError String) :
    List (String × Scalar P) → Except DomainError (List (String × Scalar P))
  | [] => .ok []
  | (key, .str text) :: rest => do
      let redacted ← redact text
      let rest ← redactAttributes redact rest
      .ok ((key, .str (clampDimensionValue redacted)) :: rest)
  | (key, value) :: rest => do
      let rest ← redactAttributes redact rest
      .ok ((key, value) :: rest)

/-- The dump of an `EventDataV1` without a message. -/
def eventData (category status : String) (attributes : List (String × Scalar P)) :
    PyValue P.runtime.Float :=
  .dict [("type", .str "event"), ("category", .str category), ("status", .str status),
    ("attributes", scalarsValue P attributes)]

theorem isScalar_value (s : Scalar P) : s.value.isScalar = true := by
  cases s <;> rfl

theorem eventData_conforms (category status : String) {attributes : List (String × Scalar P)}
    (hfew : attributes.length ≤ maxDimensions) :
    recordDataShape.Conforms (eventData category status attributes) := by
  unfold recordDataShape eventData
  refine .union List.mem_cons_self (.model ?_)
  refine .take (.scalar rfl) (.take (.scalar rfl) (.take (.scalar rfl) (.skip (.take ?_ .nil))))
  refine .dict (by rwa [List.length_map]) fun m hm => ?_
  obtain ⟨entry, -, rfl⟩ := List.mem_map.mp hm
  exact isScalar_value entry.2

/-- `_frame_digest`; a validated frame is canonical. -/
def frameDigest (frame : OutboxFrameV1 P) : String :=
  match hbytes : canonicalJsonBytes P.runtime frameLimits
      (dump (frameFields P) frame.toFrameFields) with
  | .ok bytes => String.ofList (outbox.sha256Hex bytes)
  | .error _ => absurd frame.canonical fun ⟨_, h⟩ => by rw [hbytes] at h; cases h

/-- `_source_generation_digest`. -/
def sourceGenerationDigest : String :=
  String.ofList (outbox.sha256Hex
    (encodeUtf8 (collectorType ++ "\x00" ++ implementationVersion).toList))

/-- The observation of a frame at the offset of its line. -/
def observationCoordinate (frame : OutboxFrameV1 P) (offset : Nat) : ObservationCoordinateV1 P where
  kind := observationKind
  parts :=
    [("producer", .str frame.producerId),
      ("occurred_at", .str (String.ofList (timestampText frame.occurredAt))),
      ("offset", .int offset),
      ("content", .str (frameDigest outbox frame))]

/-- `FileOutboxCollector._draft`. -/
def FileOutboxCollector.draft (context : CollectorContext) (frame : OutboxFrameV1 P)
    (offset : Nat) : Except DomainError (RecordDraftV1 P) := do
  let attributes ← redactAttributes context.redactor.redact frame.data
  if hfew : attributes.length ≤ maxDimensions then
    if stampLimit ≤ context.now + nominalExpiry then
      .error ⟨"MH_INTERNAL_UNEXPECTED", "an unexpected error"⟩
    else
      let run := context.collector.id ++ ":" ++ String.ofList (timestampText context.now)
      let draft : RecordDraftV1 P := {
        recordType := .event
        name := recordName
        occurredAt := frame.occurredAt
        observedAt := context.now
        ingestedAt := context.now
        expiresAt := context.now + nominalExpiry
        sourceEventId := none
        sourceEntityId := none
        operationId := run
        collectorRunId := some run
        scope := .target
        source := {
          id := context.collector.id
          type := sourceType
          producer := .collector
          observationNamespaceId := outboxNamespace
          sourceGenerationDigest := sourceGenerationDigest outbox
          observation := observationCoordinate outbox frame offset }
        collector := some context.collector
        target := context.target
        severity := .info
        trustLevel := .authenticated
        privacyClass := .internal
        redactionVersion := "r1-e1"
        correlation := ⟨none, none, none, none⟩
        dimensions := []
        data := eventData frame.kind frame.actionability.text attributes
        data_conforms := eventData_conforms _ _ hfew }
      if acceptsDraft draft then .ok draft else .error draftInvalid
  else .error draftInvalid

/-- What the pipeline finalizes of a read: the drafts of its entries. -/
def recordsOf (installationId : String) (context : CollectorContext)
    (entries : List (OutboxFrameV1 P × Nat)) :
    Except DomainError (List (Domain.RecordEnvelopeV1 P)) := do
  let drafts ← entries.mapM fun entry =>
    FileOutboxCollector.draft outbox acceptsDraft context entry.1 entry.2
  drafts.mapM (finalizeDraft outbox.sha256 acceptsDraft installationId context.redactor)

/-! ## What a record is known by -/

/-- The identity of the record of a frame at an offset: of the run, it has the collector, the target
and the policy version. -/
def entryIdentity (installationId : String) (context : CollectorContext) (frame : OutboxFrameV1 P)
    (offset : Nat) : RecordIdentityV1 P where
  installationId := installationId
  redactionVersion := context.redactor.version
  source := ⟨context.collector.id, sourceType, outboxNamespace, sourceGenerationDigest outbox⟩
  scope := .target
  targetId := context.target.map (·.id)
  recordType := .event
  name := recordName
  sourceEventId := none
  sourceEntityId := none
  observation := observationCoordinate outbox frame offset

variable {outbox acceptsDraft} {installationId : String} {context context' : CollectorContext}
  {frame frame' : OutboxFrameV1 P} {offset offset' : Nat}

theorem identity_draft {draft : RecordDraftV1 P}
    (h : FileOutboxCollector.draft outbox acceptsDraft context frame offset = .ok draft) :
    { draft.identity installationId with redactionVersion := context.redactor.version } =
      entryIdentity outbox installationId context frame offset := by
  obtain ⟨attributes, -, h⟩ := Except.bind_eq_ok_iff.mp h
  split at h
  · split at h
    · cases h
    · dsimp only at h
      split at h
      · obtain rfl := Except.ok.inj h
        rfl
      · cases h
  · cases h

/-- **The record of an entry** has the id of its identity. -/
theorem recordId_of_entry {draft : RecordDraftV1 P} {record : Domain.RecordEnvelopeV1 P}
    (hdraft : FileOutboxCollector.draft outbox acceptsDraft context frame offset = .ok draft)
    (hrecord : finalizeDraft outbox.sha256 acceptsDraft installationId context.redactor draft =
      .ok record) :
    deriveRecordId P outbox.sha256 (entryIdentity outbox installationId context frame offset) =
      .ok record.recordId := by
  rw [← identity_draft hdraft]
  exact recordId_finalizeDraft hrecord

/-- **The records of a read** are those of its entries, one by one. -/
theorem recordsOf_ok {entries : List (OutboxFrameV1 P × Nat)}
    {records : List (Domain.RecordEnvelopeV1 P)}
    (h : recordsOf outbox acceptsDraft installationId context entries = .ok records) :
    entries.map (fun entry => deriveRecordId P outbox.sha256
      (entryIdentity outbox installationId context entry.1 entry.2)) =
        records.map fun record => .ok record.recordId := by
  obtain ⟨drafts, hdrafts, h⟩ := Except.bind_eq_ok_iff.mp h
  have hdrafts := Except.map_of_mapM hdrafts
  have hrecords := Except.map_of_mapM h
  have hlength := congrArg List.length hdrafts
  have hlength' := congrArg List.length hrecords
  rw [List.length_map, List.length_map] at hlength hlength'
  refine List.ext_getElem (by rw [List.length_map, List.length_map, hlength, hlength']) ?_
  intro i hi hi'
  rw [List.length_map] at hi hi'
  have hdraft := List.getElem_of_eq hdrafts (by rwa [List.length_map])
  have hrecord := List.getElem_of_eq hrecords (by rwa [List.length_map, ← hlength])
  rw [List.getElem_map, List.getElem_map] at hdraft hrecord ⊢
  exact recordId_of_entry hdraft hrecord

/-- The parts of an observation, as the fields of a model. -/
def partFields (P : CanonicalPlatform) (outbox : OutboxRuntime P) :
    List (Field P (OutboxFrameV1 P × Nat)) :=
  [textField P "producer" fun e => e.1.producerId,
    textField P "occurred_at" fun e => String.ofList (timestampText e.1.occurredAt),
    valueField P "offset" fun e => .int e.2,
    textField P "content" fun e => frameDigest outbox e.1]

theorem plain_partFields : PlainFields (partFields P outbox) := by
  apply PlainFields.of_names
  simp only [partFields, textField, valueField, List.map_cons, List.map_nil]
  decide

/-- Observations with one canonical form are at one offset. -/
theorem offset_of_normal
    (h : normal P (dump (observationFields P) (observationCoordinate outbox frame offset)) =
      normal P (dump (observationFields P) (observationCoordinate outbox frame' offset'))) :
    offset = offset' := by
  have hparts := (normal_dump_eq_iff plain_observationFields _ _).mp h
    (valueField P "parts" fun o => scalarsValue P o.parts) (by simp [observationFields])
  have hdump : normal P (dump (partFields P outbox) (frame, offset)) =
      normal P (dump (partFields P outbox) (frame', offset')) :=
    (same_valueField "parts" (fun o : ObservationCoordinateV1 P => scalarsValue P o.parts) _ _).mp
      hparts
  have hoffset := (normal_dump_eq_iff plain_partFields _ _).mp hdump
    (valueField P "offset" fun e => .int e.2) (by simp [partFields])
  have hint := (same_valueField "offset" (fun e : OutboxFrameV1 P × Nat => .int e.2) _ _).mp hoffset
  rw [normal, normal] at hint
  exact Int.ofNat.inj (Value.int.inj hint)

/-- **Frames at two offsets** have two record ids, unless their identities collide. -/
theorem recordId_ne_of_offset {id id' : String} (hne : offset ≠ offset')
    (hid : deriveRecordId P outbox.sha256
      (entryIdentity outbox installationId context frame offset) = .ok id)
    (hid' : deriveRecordId P outbox.sha256
      (entryIdentity outbox installationId context' frame' offset') = .ok id') :
    id ≠ id' ∨ Collide outbox.sha256 (entryIdentity outbox installationId context frame offset)
      (entryIdentity outbox installationId context' frame' offset') := by
  by_cases heq : id = id'
  · subst heq
    rcases normal_or_collide hid hid' with hnormal | hcollide
    · have hfield := (normal_dump_eq_iff plain_identityFields _ _).mp hnormal
        (valueField P "observation" fun i => dump (observationFields P) i.observation)
        (by simp [identityFields])
      have hobservation := (same_valueField "observation"
        (fun i : RecordIdentityV1 P => dump (observationFields P) i.observation) _ _).mp hfield
      exact absurd (offset_of_normal hobservation) hne
    · exact .inr hcollide
  · exact .inl heq

end Collector

end Milhouse.Outbox
