import Milhouse.Domain.Finalize
import Milhouse.Spool.WireFormat

/-!
# Milhouse — the identity of a finalized record can always be derived

The trusted reader derives the digests of a record again. The projections they are made of are parts
of the record, but for the installation; a record that is within its bound leaves room for it, since
it has its own digests besides. So the only failures are the two mismatches.

* `sum_dumpFields` — what is summed over a dump is summed over its fields;
* **`canonical_identity`**, `canonical_dedupe` — both projections of a finalized record are canonical;
* **`verifyRecordIdentity_eq_ok_iff`** — a record passes where its tokens are those of its identity.
-/

namespace Milhouse.Wire

open Json Text

/-- `[0-9a-f]`. -/
def isHexLower (c : Char) : Bool := ('0' ≤ c && c ≤ '9') || ('a' ≤ c && c ≤ 'f')

/-- `INSTALLATION_ID_PATTERN`, matched in full: the 32 digits of a random UUID behind a prefix. -/
def matchesInstallationId (text : String) : Bool :=
  let digits := text.toList.drop 7
  "mh_in1_".toList <+: text.toList && digits.length = 32 && digits.all isHexLower
    && digits[12]? = some '4'
    && (digits[16]? = some '8' || digits[16]? = some '9' || digits[16]? = some 'a'
      || digits[16]? = some 'b')

theorem isWireText_installationId {text : String} (h : matchesInstallationId text = true) :
    IsWireText text ∧ text.toList.length = 39 := by
  unfold matchesInstallationId at h
  simp only [Bool.and_eq_true, decide_eq_true_eq, List.all_eq_true] at h
  obtain ⟨⟨⟨⟨hbegins, hlength⟩, hdigits⟩, -⟩, -⟩ := h
  have hsplit := List.prefix_iff_eq_append.mp hbegins
  constructor
  · intro c hc
    rw [← hsplit, List.mem_append] at hc
    rcases hc with hc | hc
    · have hstart : IsWireText "mh_in1_" := by decide
      exact hstart c hc
    · have hdigit := hdigits c hc
      unfold isHexLower at hdigit
      unfold isWireChar isAlnum
      simp only [Bool.or_eq_true, Bool.and_eq_true, decide_eq_true_eq] at hdigit ⊢
      rcases hdigit with hdigit | hletter
      · exact Or.inl (Or.inl (Or.inl (Or.inr hdigit)))
      · exact Or.inl (Or.inl (Or.inl (Or.inl (Or.inr
          ⟨hletter.1, Char.le_trans hletter.2 (by decide)⟩))))
  · rw [← hsplit, List.length_append]
    have hbeginsLength : "mh_in1_".toList.length = 7 := by decide
    rw [hbeginsLength, hlength]

/-! ## Dumps, field by field -/

section Dumps

variable {P : CanonicalPlatform} {α : Type}

/-- What a field adds to a sum over the members. -/
def fieldTerm (measure : String × PyValue P.runtime.Float → Nat) (f : Domain.Field P α)
    (x : α) : Nat := ((f.get x).map fun v => measure (f.name, v)).getD 0

/-- A measure of the dump of a record is summed field by field. -/
theorem sum_dumpFields (measure : String × PyValue P.runtime.Float → Nat)
    (fields : List (Domain.Field P α)) (x : α) :
    ((Domain.dumpFields fields x).map measure).sum =
      (fields.map fun f => fieldTerm measure f x).sum := by
  unfold Domain.dumpFields
  induction fields with
  | nil => rfl
  | cons f fields ih =>
      rw [List.map_cons, List.sum_cons, ← ih, List.filterMap_cons]
      unfold fieldTerm
      cases f.get x with
      | none => exact (Nat.zero_add _).symm
      | some v => rfl

/-- What holds of every field holds of every member of the dump. -/
theorem forall_dumpFields {p : String × PyValue P.runtime.Float → Prop}
    {fields : List (Domain.Field P α)} {x : α}
    (h : ∀ f ∈ fields, ∀ v, f.get x = some v → p (f.name, v)) :
    ∀ m ∈ Domain.dumpFields fields x, p m := by
  intro m hm
  obtain ⟨f, hf, hget⟩ := List.mem_filterMap.mp hm
  obtain ⟨v, hv, rfl⟩ := Option.map_eq_some_iff.mp hget
  exact h f hf v hv

theorem mem_dumpFields {fields : List (Domain.Field P α)} {f : Domain.Field P α} {x : α}
    {v : PyValue P.runtime.Float} (hf : f ∈ fields) (hv : f.get x = some v) :
    (f.name, v) ∈ Domain.dumpFields fields x :=
  List.mem_filterMap.mpr ⟨f, hf, by rw [hv]; rfl⟩

end Dumps

/-! ## The parts of a record -/

section Parts

variable {P : CanonicalPlatform} (record : FinalizedRecord P)

set_option maxRecDepth 10000 in
/-- No record has more than eight hundred nodes. -/
theorem recordShape_nodes : recordShape.maxNodes ≤ 800 := by decide

/-- What is known of the dump of a record. -/
theorem dump_facts : WellFormed P.runtime record.dump ∧ record.dump.nodes ≤ 800 ∧
    record.dump.height ≤ 8 ∧ size P.runtime record.dump ≤ maxRecordBytes := by
  obtain ⟨bytes, hbytes⟩ := record.canonical
  obtain ⟨⟨hwell, -, -, hsize⟩, -⟩ := canonicalJsonBytes_eq_ok_iff.mp hbytes
  exact ⟨hwell, record.shaped.nodes_le.trans recordShape_nodes,
    record.shaped.height_le.trans recordShape_bounds.2, hsize⟩

/-- The members of a well-formed object are well formed, and no larger. -/
theorem member_facts {ms : List (String × PyValue P.runtime.Float)} {m : String × PyValue P.runtime.Float}
    (hm : m ∈ ms) (hwell : WellFormed P.runtime (.dict ms)) :
    WellFormed P.runtime m.2 ∧ m.2.nodes ≤ (PyValue.dict ms).nodes ∧
      m.2.height ≤ (PyValue.dict ms).height := by
  refine ⟨?_, ?_, ?_⟩
  · cases hwell with
    | dict _ _ hall => exact hall m hm
  · rw [PyValue.nodes, PyValue.memberNodes_eq]
    have hle := List.single_le_sum (l := ms.map fun m => m.2.nodes) (fun _ _ => Nat.zero_le _) m.2.nodes
      (List.mem_map_of_mem hm)
    omega
  · rw [PyValue.height]
    exact (PyValue.height_le_of_mem_dict hm).trans (Nat.le_add_left _ _)

/-- The observation of a record is a part of its dump. -/
theorem observation_facts :
    WellFormed P.runtime (Domain.dump (Domain.observationFields P) record.draft.source.observation) ∧
      (Domain.dump (Domain.observationFields P) record.draft.source.observation).nodes ≤ 800 ∧
      (Domain.dump (Domain.observationFields P) record.draft.source.observation).height ≤ 8 := by
  obtain ⟨hwell, hnodes, hheight, -⟩ := dump_facts record
  have hsource : ("source", Domain.dump (Domain.sourceFields P) record.draft.source) ∈
      Domain.dumpFields (Domain.envelopeFields P) record.toRecordEnvelopeV1 :=
    mem_dumpFields (f := ⟨"source", fun r => some (Domain.dump (Domain.sourceFields P) r.draft.source)⟩)
      (by simp [Domain.envelopeFields, Domain.draftFields, Domain.valueField]) rfl
  obtain ⟨hwell', hnodes', hheight'⟩ := member_facts hsource hwell
  have hobservation : ("observation",
      Domain.dump (Domain.observationFields P) record.draft.source.observation) ∈
        Domain.dumpFields (Domain.sourceFields P) record.draft.source :=
    mem_dumpFields (f := Domain.valueField P "observation" fun s =>
      Domain.dump (Domain.observationFields P) s.observation) (by simp [Domain.sourceFields]) rfl
  obtain ⟨hwell'', hnodes'', hheight''⟩ := member_facts hobservation hwell'
  exact ⟨hwell'', (hnodes''.trans hnodes').trans hnodes, (hheight''.trans hheight').trans hheight⟩

end Parts

/-! ## The projections -/

section Projections

variable {P : CanonicalPlatform}

/-- What a member takes, with the comma or the brace behind it. -/
def memberTerm (P : CanonicalPlatform) (m : String × PyValue P.runtime.Float) : Nat :=
  memberSize P.runtime m + 1

/-- A member with a wire name costs its name, its value and four characters. -/
theorem memberTerm_eq {name : String} (h : IsWireText name) (v : PyValue P.runtime.Float) :
    memberTerm P (name, v) = name.toList.length + 4 + size P.runtime v := by
  unfold memberTerm
  rw [memberSize_eq h]
  dsimp only
  omega

/-- The size of a dump, field by field. -/
theorem size_dump {α : Type} (fields : List (Domain.Field P α)) (x : α)
    (hne : Domain.dumpFields fields x ≠ []) :
    size P.runtime (Domain.dump fields x) =
      1 + (fields.map fun f => fieldTerm (memberTerm P) f x).sum := by
  unfold size Domain.dump
  rw [length_canonicalText_dict hne, ← sum_dumpFields]
  rfl

/-- What is said of each value of a projection. -/
def Small (v : PyValue P.runtime.Float) : Prop :=
  WellFormed P.runtime v ∧ v.nodes ≤ 800 ∧ v.height ≤ 8

theorem small_scalar {v : PyValue P.runtime.Float} (hwell : WellFormed P.runtime v)
    (h : v.isScalar = true) : Small v := by
  obtain ⟨hnodes, hheight⟩ := PyValue.nodes_scalar h
  exact ⟨hwell, by omega, by omega⟩

theorem small_str (text : String) : Small (P := P) (.str text) := small_scalar (.str _) rfl

theorem small_version : Small (P := P) (.int 1) := small_scalar (.int _ (by decide)) rfl

/-- **A projection of a few small values is canonical**, where it is within the bound. -/
theorem canonical_of_small {α : Type} {fields : List (Domain.Field P α)} {x : α}
    (hplain : Domain.PlainFields fields) (hfew : fields.length ≤ 12)
    (hsmall : ∀ f ∈ fields, ∀ v, f.get x = some v → Small v)
    (hsize : size P.runtime (Domain.dump fields x) ≤ maxRecordBytes) :
    ∃ bytes, canonicalJsonBytes P.runtime recordLimits (Domain.dump fields x) = .ok bytes := by
  have hmembers : ∀ m ∈ Domain.dumpFields fields x, Small m.2 := forall_dumpFields hsmall
  refine ⟨_, canonicalJsonBytes_eq_ok_iff.mpr ⟨⟨?_, ?_, ?_, hsize⟩, rfl⟩⟩
  · exact .dict _ (Domain.nodup_dumpFields hplain x) fun m hm => (hmembers m hm).1
  · have hcount : (Domain.dumpFields fields x).length ≤ 12 :=
      (List.length_filterMap_le _ _).trans hfew
    have hsum := List.sum_le_card_nsmul ((Domain.dumpFields fields x).map fun m => m.2.nodes) 800 (by
      intro n hn
      obtain ⟨m, hm, rfl⟩ := List.mem_map.mp hn
      exact (hmembers m hm).2.1)
    rw [List.length_map, Nat.nsmul_eq_mul] at hsum
    show (PyValue.dict (Domain.dumpFields fields x)).nodes ≤ 10000
    rw [PyValue.nodes, PyValue.memberNodes_eq]
    omega
  · have hle : PyValue.memberHeight (Domain.dumpFields fields x) ≤ 8 :=
      PyValue.memberHeight_le fun m hm => (hmembers m hm).2.2
    show (PyValue.dict (Domain.dumpFields fields x)).height ≤ 32
    rw [PyValue.height]
    omega

/-- A few texts are small. -/
theorem small_texts {α : Type} {fields : List (Domain.Field P α)} {x : α}
    (hplain : Domain.PlainFields fields) (hfew : fields.length ≤ 12)
    (htexts : ∀ f ∈ fields, ∀ v, f.get x = some v → ∃ text, v = .str text) :
    Small (Domain.dump fields x) := by
  have hmembers : ∀ m ∈ Domain.dumpFields fields x, ∃ text, m.2 = .str text :=
    forall_dumpFields htexts
  have hscalar : ∀ m ∈ Domain.dumpFields fields x, m.2.isScalar = true := by
    intro m hm
    obtain ⟨text, htext⟩ := hmembers m hm
    rw [htext]
    rfl
  obtain ⟨hnodes, hheight⟩ := memberNodes_scalars hscalar
  have hcount : (Domain.dumpFields fields x).length ≤ 12 :=
    (List.length_filterMap_le _ _).trans hfew
  refine ⟨.dict _ (Domain.nodup_dumpFields hplain x) fun m hm => ?_, ?_, ?_⟩
  · obtain ⟨text, htext⟩ := hmembers m hm
    rw [htext]
    exact .str _
  · rw [Domain.dump, PyValue.nodes, hnodes]
    omega
  · rw [Domain.dump, PyValue.height, hheight]
    decide

section Sizes

variable (record : FinalizedRecord P)

/-- The source of a record makes room for that of its identity and for the observation. -/
theorem source_room (s : Domain.SourceDescriptorV1 P) :
    memberTerm P ("source", Domain.dump (Domain.sourceIdentityFields P) s.identitySource) +
        memberTerm P ("observation", Domain.dump (Domain.observationFields P) s.observation) ≤
      memberTerm P ("source", Domain.dump (Domain.sourceFields P) s) := by
  have hsource : IsWireText "source" := by decide
  rw [memberTerm_eq hsource, memberTerm_eq hsource,
    size_dump (Domain.sourceIdentityFields P) s.identitySource (List.cons_ne_nil _ _),
    size_dump (Domain.sourceFields P) s (List.cons_ne_nil _ _)]
  simp only [Domain.sourceIdentityFields, Domain.sourceFields, Domain.textField, Domain.valueField,
    List.map_cons, List.sum_cons, List.map_nil, List.sum_nil, fieldTerm, Option.map_some,
    Option.getD_some, Domain.SourceDescriptorV1.identitySource]
  omega

/-- The target of a record makes room for its id. -/
theorem target_room (target : Option Domain.TargetDescriptorV1) :
    (((target.map (·.id)).map PyValue.str).map fun v => memberTerm P ("target_id", v)).getD 0 ≤
      ((target.map (Domain.dump (Domain.targetFields P))).map fun v =>
        memberTerm P ("target", v)).getD 0 := by
  cases target with
  | none => exact Nat.le_refl 0
  | some target =>
      have hnames : IsWireText "target_id" ∧ IsWireText "target" ∧ IsWireText "id" := by decide
      have hlengths : "id".toList.length = 2 ∧ "target_id".toList.length = 9 ∧
          "target".toList.length = 6 := by decide
      show memberTerm P ("target_id", .str target.id) ≤
        memberTerm P ("target", Domain.dump (Domain.targetFields P) target)
      rw [memberTerm_eq hnames.1, memberTerm_eq hnames.2.1,
        size_dump (Domain.targetFields P) target (List.cons_ne_nil _ _)]
      simp only [Domain.targetFields, Domain.textField, List.map_cons, List.sum_cons, List.map_nil,
        List.sum_nil, fieldTerm, Option.map_some, Option.getD_some]
      rw [memberTerm_eq hnames.2.2]
      omega

/-- The tokens of a record make room for the installation. -/
theorem token_room {version installationId : String} (hversion : IsWireText version)
    (hlength : version.toList.length ≤ 16)
    (hinstallation : matchesInstallationId installationId = true) :
    memberTerm P (version, .int 1) + memberTerm P ("installation_id", .str installationId) ≤
      memberTerm P ("record_id", .str record.recordId) +
        memberTerm P ("dedupe_key", .str record.dedupeKey) := by
  obtain ⟨hwire, hinstallationLength⟩ := isWireText_installationId hinstallation
  obtain ⟨hrecordId, hrecordIdLength⟩ := isWireText_recordId record.recordId_valid
  obtain ⟨hdedupe, hdedupeLength⟩ := isWireText_dedupeKey record.dedupeKey_valid
  have hnames : IsWireText "installation_id" ∧ IsWireText "record_id" ∧ IsWireText "dedupe_key" := by
    decide
  have hlengths : "installation_id".toList.length = 15 ∧ "record_id".toList.length = 9 ∧
      "dedupe_key".toList.length = 10 := by decide
  have hone : size P.runtime (.int 1) = 1 := rfl
  rw [memberTerm_eq hversion, memberTerm_eq hnames.1, memberTerm_eq hnames.2.1,
    memberTerm_eq hnames.2.2, size_str hwire, size_str hrecordId, size_str hdedupe]
  omega

/-- The identity of a record takes no more bytes than the record. -/
theorem size_identity_le {installationId : String}
    (hinstallation : matchesInstallationId installationId = true) :
    size P.runtime (Domain.dump (Domain.identityFields P) (record.draft.identity installationId)) ≤
      size P.runtime record.dump := by
  have hsource := source_room record.draft.source
  have htarget := target_room (P := P) record.draft.target
  have htokens := @token_room P record "identity_version" _ (by decide) (by decide) hinstallation
  unfold FinalizedRecord.dump
  rw [size_dump (Domain.identityFields P) (record.draft.identity installationId)
      (List.cons_ne_nil _ _),
    size_dump (Domain.envelopeFields P) record.toRecordEnvelopeV1 (List.cons_ne_nil _ _)]
  simp only [Domain.identityFields, Domain.envelopeFields, Domain.draftFields, Domain.textField,
    Domain.valueField, Domain.textOrNoneField, Domain.stampField, List.map_cons, List.sum_cons,
    List.map_nil, List.sum_nil, List.cons_append, List.nil_append, fieldTerm, Option.map_some,
    Option.getD_some, Domain.RecordDraftV1.identity]
  omega

/-- So does what its dedupe key is made of. -/
theorem size_dedupe_le {installationId : String}
    (hinstallation : matchesInstallationId installationId = true) :
    size P.runtime (Domain.dump (Domain.dedupeFields P)
        (.fromIdentity (record.draft.identity installationId))) ≤ size P.runtime record.dump := by
  have hsource : memberTerm P ("source", Domain.dump (Domain.dedupeSourceFields P)
        ⟨record.draft.source.type, record.draft.source.id,
          record.draft.source.observationNamespaceId⟩) ≤
      memberTerm P ("source", Domain.dump (Domain.sourceIdentityFields P)
        record.draft.source.identitySource) := by
    have hname : IsWireText "source" := by decide
    rw [memberTerm_eq hname, memberTerm_eq hname,
      size_dump (Domain.dedupeSourceFields P) _ (List.cons_ne_nil _ _),
      size_dump (Domain.sourceIdentityFields P) _ (List.cons_ne_nil _ _)]
    simp only [Domain.dedupeSourceFields, Domain.sourceIdentityFields, Domain.textField,
      List.map_cons, List.sum_cons, List.map_nil, List.sum_nil, fieldTerm, Option.map_some,
      Option.getD_some, Domain.SourceDescriptorV1.identitySource]
    omega
  have hroom := source_room record.draft.source
  have htarget := target_room (P := P) record.draft.target
  have htokens := @token_room P record "dedupe_version" _ (by decide) (by decide) hinstallation
  unfold FinalizedRecord.dump
  rw [size_dump (Domain.dedupeFields P) (.fromIdentity (record.draft.identity installationId))
      (List.cons_ne_nil _ _),
    size_dump (Domain.envelopeFields P) record.toRecordEnvelopeV1 (List.cons_ne_nil _ _)]
  simp only [Domain.dedupeFields, Domain.envelopeFields, Domain.draftFields, Domain.textField,
    Domain.valueField, Domain.textOrNoneField, Domain.stampField, List.map_cons, List.sum_cons,
    List.map_nil, List.sum_nil, List.cons_append, List.nil_append, fieldTerm, Option.map_some,
    Option.getD_some, Domain.RecordDraftV1.identity, Domain.RecordDedupeV1.fromIdentity,
    Domain.SourceDescriptorV1.identitySource]
  simp only [Domain.SourceDescriptorV1.identitySource] at hsource hroom
  omega

end Sizes

/-- The identity of every finalized record can be encoded. -/
theorem canonical_identity (record : FinalizedRecord P) {installationId : String}
    (hinstallation : matchesInstallationId installationId = true) :
    ∃ bytes, canonicalJsonBytes P.runtime recordLimits
      (Domain.dump (Domain.identityFields P) (record.draft.identity installationId)) = .ok bytes := by
  have hsource : Small (Domain.dump (Domain.sourceIdentityFields P)
      record.draft.source.identitySource) := by
    refine small_texts Domain.plain_sourceIdentityFields (by show 4 ≤ 12; decide) ?_
    simp only [Domain.sourceIdentityFields, List.forall_mem_cons, Domain.textField, Option.some.injEq,
      forall_eq', PyValue.str.injEq, exists_eq', List.not_mem_nil, IsEmpty.forall_iff, implies_true,
      and_self]
  refine canonical_of_small Domain.plain_identityFields (Nat.le_refl 12) ?_
    ((size_identity_le record hinstallation).trans (dump_facts record).2.2.2)
  simp only [Domain.identityFields, List.forall_mem_cons, Domain.textField, Domain.valueField,
    Domain.textOrNoneField, Option.map_eq_some_iff, Option.some.injEq, forall_eq',
    forall_exists_index, and_imp, forall_apply_eq_imp_iff₂]
  exact ⟨small_version, small_str _, small_str _, small_str _, hsource, small_str _,
    fun text _ => small_str text, small_str _, small_str _, fun text _ => small_str text,
    fun text _ => small_str text, observation_facts record, List.forall_mem_nil _⟩

/-- So can its dedupe identity. -/
theorem canonical_dedupe (record : FinalizedRecord P) {installationId : String}
    (hinstallation : matchesInstallationId installationId = true) :
    ∃ bytes, canonicalJsonBytes P.runtime recordLimits (Domain.dump (Domain.dedupeFields P)
      (.fromIdentity (record.draft.identity installationId))) = .ok bytes := by
  have hsource : Small (Domain.dump (Domain.dedupeSourceFields P)
      (⟨record.draft.source.type, record.draft.source.id,
        record.draft.source.observationNamespaceId⟩ : Domain.DedupeSourceV1)) := by
    refine small_texts Domain.plain_dedupeSourceFields (by show 3 ≤ 12; decide) ?_
    simp only [Domain.dedupeSourceFields, List.forall_mem_cons, Domain.textField, Option.some.injEq,
      forall_eq', PyValue.str.injEq, exists_eq', List.not_mem_nil, IsEmpty.forall_iff, implies_true,
      and_self]
  refine canonical_of_small Domain.plain_dedupeFields (by show 8 ≤ 12; decide) ?_
    ((size_dedupe_le record hinstallation).trans (dump_facts record).2.2.2)
  simp only [Domain.dedupeFields, List.forall_mem_cons, Domain.textField, Domain.valueField,
    Domain.textOrNoneField, Option.map_eq_some_iff, Option.some.injEq, forall_eq',
    forall_exists_index, and_imp, forall_apply_eq_imp_iff₂]
  exact ⟨small_version, small_str _, hsource, small_str _, fun text _ => small_str text, small_str _,
    small_str _, observation_facts record, List.forall_mem_nil _⟩

/-! ## Verification -/

section Verify

variable (sha256 : Bytes → Bytes) (record : FinalizedRecord P) {installationId : String}

/-- The digest of a canonical projection. -/
theorem domainDigest_of_canonical {domain : Bytes} {v : PyValue P.runtime.Float}
    (h : ∃ bytes, canonicalJsonBytes P.runtime recordLimits v = .ok bytes) :
    ∃ digest, Domain.domainDigest P sha256 domain v = .ok digest := by
  obtain ⟨bytes, hbytes⟩ := h
  unfold Domain.domainDigest
  rw [hbytes]
  exact ⟨_, rfl⟩

/-- **Both tokens of a finalized record can be derived.** -/
theorem tokens_of_record (hinstallation : matchesInstallationId installationId = true) :
    ∃ recordId dedupeKey,
      Domain.deriveRecordId P sha256 (record.draft.identity installationId) = .ok recordId ∧
      Domain.deriveDedupeKey P sha256 (.fromIdentity (record.draft.identity installationId)) =
        .ok dedupeKey := by
  obtain ⟨digest, hdigest⟩ := @domainDigest_of_canonical P sha256 Domain.recordIdDomain _
    (canonical_identity record hinstallation)
  obtain ⟨digest', hdigest'⟩ := @domainDigest_of_canonical P sha256 Domain.dedupeDomain _
    (canonical_dedupe record hinstallation)
  exact ⟨_, _, Except.bind_eq_ok_iff.mpr ⟨digest, hdigest, rfl⟩,
    Except.bind_eq_ok_iff.mpr ⟨digest', hdigest', rfl⟩⟩

/-- **A record passes** where its tokens are those of its identity. -/
theorem verifyRecordIdentity_eq_ok_iff {record : Domain.RecordEnvelopeV1 P} :
    Domain.verifyRecordIdentity P sha256 installationId record = .ok () ↔
      Domain.deriveRecordId P sha256 (record.draft.identity installationId) = .ok record.recordId ∧
      Domain.deriveDedupeKey P sha256 (.fromIdentity (record.draft.identity installationId)) =
        .ok record.dedupeKey := by
  unfold Domain.verifyRecordIdentity
  constructor
  · intro h
    obtain ⟨recordId, hrecordId, h⟩ := Except.bind_eq_ok_iff.mp h
    by_cases hid : record.recordId = recordId
    · rw [if_neg (fun hne => hne hid)] at h
      obtain ⟨dedupeKey, hdedupeKey, h⟩ := Except.bind_eq_ok_iff.mp h
      by_cases hkey : record.dedupeKey = dedupeKey
      · exact ⟨hrecordId.trans (congrArg _ hid.symm), hdedupeKey.trans (congrArg _ hkey.symm)⟩
      · rw [if_pos hkey] at h
        cases h
    · rw [if_pos hid] at h
      cases h
  · rintro ⟨hrecordId, hdedupeKey⟩
    refine Except.bind_eq_ok_iff.mpr ⟨_, hrecordId, ?_⟩
    rw [if_neg (fun hne => hne rfl)]
    refine Except.bind_eq_ok_iff.mpr ⟨_, hdedupeKey, ?_⟩
    rw [if_neg (fun hne => hne rfl)]
    rfl

/-- **A finalized record fails only where its tokens are not those of its identity.** -/
theorem verifyRecordIdentity_error {error : Domain.DomainError}
    (hinstallation : matchesInstallationId installationId = true)
    (h : Domain.verifyRecordIdentity P sha256 installationId record.toRecordEnvelopeV1 = .error error) :
    error.code = "MH_RECORD_ID_MISMATCH" ∨ error.code = "MH_RECORD_DEDUPE_MISMATCH" := by
  obtain ⟨recordId, dedupeKey, hrecordId, hdedupeKey⟩ := tokens_of_record sha256 record hinstallation
  unfold Domain.verifyRecordIdentity at h
  dsimp only at h
  rw [hrecordId, hdedupeKey] at h
  dsimp only [bind, Except.bind] at h
  by_cases hid : record.recordId = recordId
  · rw [if_neg (fun hne => hne hid)] at h
    by_cases hkey : record.dedupeKey = dedupeKey
    · rw [if_neg (fun hne => hne hkey)] at h
      cases h
    · rw [if_pos hkey] at h
      obtain rfl := Except.error.inj h
      exact Or.inr rfl
  · rw [if_pos hid] at h
    obtain rfl := Except.error.inj h
    exact Or.inl rfl

end Verify

/-! ## Records that are written alike -/

section Alike

variable {r r' : FinalizedRecord P}

theorem SameRecord.targetText (h : SameRecord r r') :
    (r.draft.target.map (·.id)).map (normalizeString P.runtime) =
      (r'.draft.target.map (·.id)).map (normalizeString P.runtime) := by
  have htarget := h.same ⟨"target", fun d => d.target.map (Domain.dump (Domain.targetFields P))⟩
    (by simp [Domain.draftFields])
  unfold Domain.Field.Same at htarget
  dsimp only at htarget
  cases hleft : r.draft.target with
  | none =>
      cases hright : r'.draft.target with
      | none => rfl
      | some target' => rw [hleft, hright] at htarget; cases htarget
  | some target =>
      cases hright : r'.draft.target with
      | none => rw [hleft, hright] at htarget; cases htarget
      | some target' =>
          rw [hleft, hright] at htarget
          have hfields := (Domain.normal_dump_eq_iff Domain.plain_targetFields target target').mp
            (Option.some.inj htarget)
          simp only [Domain.targetFields, List.forall_mem_cons, Domain.same_textField] at hfields
          exact congrArg some hfields.1

/-- Records that are written alike have one identity after normalization. -/
theorem SameRecord.identity (h : SameRecord r r') (installationId : String) :
    normal P (Domain.dump (Domain.identityFields P) (r.draft.identity installationId)) =
      normal P (Domain.dump (Domain.identityFields P) (r'.draft.identity installationId)) := by
  have hsame := h.same
  simp only [Domain.draftFields, List.forall_mem_cons, Domain.same_textField,
    Domain.same_textOrNoneField, Domain.same_valueField] at hsame
  obtain ⟨-, htype, hname, -, -, -, -, hevent, hentity, -, -, hscope, hsource, -, htarget, -, -, -,
    hredaction, -⟩ := hsame
  have hsourceFields := (Domain.normal_dump_eq_iff Domain.plain_sourceFields _ _).mp hsource
  simp only [Domain.sourceFields, List.forall_mem_cons, Domain.same_textField,
    Domain.same_valueField] at hsourceFields
  obtain ⟨hsourceId, hsourceType, -, hnamespace, hgeneration, hobservation, -⟩ := hsourceFields
  refine (Domain.normal_dump_eq_iff Domain.plain_identityFields _ _).mpr ?_
  have hidentitySource : normal P (Domain.dump (Domain.sourceIdentityFields P)
      r.draft.source.identitySource) = normal P (Domain.dump (Domain.sourceIdentityFields P)
        r'.draft.source.identitySource) := by
    refine (Domain.normal_dump_eq_iff Domain.plain_sourceIdentityFields _ _).mpr ?_
    simp only [Domain.sourceIdentityFields, List.forall_mem_cons, Domain.same_textField]
    exact ⟨hsourceId, hsourceType, hnamespace, hgeneration, List.forall_mem_nil _⟩
  simp only [Domain.identityFields, List.forall_mem_cons, Domain.same_textField,
    Domain.same_textOrNoneField, Domain.same_valueField]
  exact ⟨trivial, rfl, trivial, hredaction, hidentitySource, hscope, h.targetText, htype, hname,
    hevent, hentity, hobservation, List.forall_mem_nil _⟩

/-- Records that are written alike have one dedupe projection after normalization. -/
theorem SameRecord.dedupe (h : SameRecord r r') (installationId : String) :
    normal P (Domain.dump (Domain.dedupeFields P)
        (.fromIdentity (r.draft.identity installationId))) =
      normal P (Domain.dump (Domain.dedupeFields P)
        (.fromIdentity (r'.draft.identity installationId))) := by
  have hidentity := (Domain.normal_dump_eq_iff Domain.plain_identityFields _ _).mp
    (h.identity installationId)
  simp only [Domain.identityFields, List.forall_mem_cons, Domain.same_textField,
    Domain.same_textOrNoneField, Domain.same_valueField] at hidentity
  obtain ⟨-, -, -, -, hsource, hscope, htarget, htype, hname, -, -, hobservation, -⟩ := hidentity
  have hsourceFields := (Domain.normal_dump_eq_iff Domain.plain_sourceIdentityFields _ _).mp hsource
  simp only [Domain.sourceIdentityFields, List.forall_mem_cons, Domain.same_textField]
    at hsourceFields
  obtain ⟨hsourceId, hsourceType, hnamespace, -, -⟩ := hsourceFields
  refine (Domain.normal_dump_eq_iff Domain.plain_dedupeFields _ _).mpr ?_
  have hdedupeSource : normal P (Domain.dump (Domain.dedupeSourceFields P)
      (Domain.RecordDedupeV1.fromIdentity (r.draft.identity installationId)).source) =
        normal P (Domain.dump (Domain.dedupeSourceFields P)
          (Domain.RecordDedupeV1.fromIdentity (r'.draft.identity installationId)).source) := by
    refine (Domain.normal_dump_eq_iff Domain.plain_dedupeSourceFields _ _).mpr ?_
    simp only [Domain.dedupeSourceFields, List.forall_mem_cons, Domain.same_textField]
    exact ⟨hsourceType, hsourceId, hnamespace, List.forall_mem_nil _⟩
  simp only [Domain.dedupeFields, List.forall_mem_cons, Domain.same_textField,
    Domain.same_textOrNoneField, Domain.same_valueField]
  exact ⟨trivial, rfl, hdedupeSource, hscope, htarget, htype, hname, hobservation,
    List.forall_mem_nil _⟩

/-- Canonical projections with one normal form have one digest. -/
theorem domainDigest_congr {sha256 : Bytes → Bytes} {domain digest : Bytes}
    {v w : PyValue P.runtime.Float} (h : normal P v = normal P w)
    (hw : ∃ bytes, canonicalJsonBytes P.runtime recordLimits w = .ok bytes)
    (hdigest : Domain.domainDigest P sha256 domain v = .ok digest) :
    Domain.domainDigest P sha256 domain w = .ok digest := by
  obtain ⟨bytes', hbytes'⟩ := hw
  unfold Domain.domainDigest at hdigest ⊢
  split at hdigest
  · cases hdigest
  · rename_i bytes hbytes
    obtain rfl := Except.ok.inj hdigest
    rw [hbytes', (canonicalJsonBytes_eq_iff hbytes hbytes').mpr h]

/-- **Of records that are written alike, both pass or neither does.** -/
theorem SameRecord.verify {sha256 : Bytes → Bytes} {installationId : String} (h : SameRecord r r')
    (hinstallation : matchesInstallationId installationId = true)
    (hverify : Domain.verifyRecordIdentity P sha256 installationId r.toRecordEnvelopeV1 = .ok ()) :
    Domain.verifyRecordIdentity P sha256 installationId r'.toRecordEnvelopeV1 = .ok () := by
  obtain ⟨hrecordId, hdedupeKey⟩ := (verifyRecordIdentity_eq_ok_iff sha256).mp hverify
  obtain ⟨digest, hdigest, hid⟩ := Except.bind_eq_ok_iff.mp hrecordId
  obtain ⟨digest', hdigest', hkey⟩ := Except.bind_eq_ok_iff.mp hdedupeKey
  refine (verifyRecordIdentity_eq_ok_iff sha256).mpr ⟨?_, ?_⟩
  · rw [← h.recordId, ← Except.ok.inj hid]
    exact Except.bind_eq_ok_iff.mpr ⟨digest, domainDigest_congr (h.identity installationId)
      (canonical_identity r' hinstallation) hdigest, rfl⟩
  · rw [← h.dedupeKey, ← Except.ok.inj hkey]
    exact Except.bind_eq_ok_iff.mpr ⟨digest', domainDigest_congr (h.dedupe installationId)
      (canonical_dedupe r' hinstallation) hdigest', rfl⟩

end Alike

end Projections

end Milhouse.Wire
