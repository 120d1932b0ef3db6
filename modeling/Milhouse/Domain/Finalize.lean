import Milhouse.Domain.Identity

/-!
# Milhouse — drafts that are finalized

A draft is finalized if its projections are canonical. The identity, the dedupe identity and the
content of a draft are well formed because its parts are; what is left is their sizes, which `room`
bounds from above without sorting a member.

* **`wellFormed_draft`**, `wellFormed_identity`, `wellFormed_content` — what is well formed of a draft;
* **`exists_finalizeRecord_of_room`** — a well-formed draft with small projections is finalized.
-/

namespace Milhouse.Domain

open Json

/-! ## Well-formed projections -/

section WellFormed

variable {P : CanonicalPlatform} {α : Type}

/-- What a field is in a dump is well formed. -/
def Field.WellFormedAt (f : Field P α) (x : α) : Prop := ∀ v ∈ f.get x, WellFormed P.runtime v

/-- **A dump of well-formed values** is well formed. -/
theorem wellFormed_dump {fields : List (Field P α)} (hplain : PlainFields fields) {x : α}
    (h : ∀ f ∈ fields, f.WellFormedAt x) : WellFormed P.runtime (dump fields x) := by
  refine .dict _ (nodup_dumpFields hplain x) fun m hm => ?_
  obtain ⟨f, hf, hget⟩ := List.mem_filterMap.mp hm
  obtain ⟨v, hv, rfl⟩ := Option.map_eq_some_iff.mp hget
  exact h f hf v hv

@[simp] theorem wellFormedAt_textField (name : String) (get : α → String) (x : α) :
    (textField P name get).WellFormedAt x := by
  intro v hv
  obtain rfl := Option.some.inj hv
  exact .str _

@[simp] theorem wellFormedAt_textOrNoneField (name : String) (get : α → Option String) (x : α) :
    (textOrNoneField P name get).WellFormedAt x := by
  intro v hv
  obtain ⟨text, -, rfl⟩ := Option.map_eq_some_iff.mp hv
  exact .str _

@[simp] theorem wellFormedAt_stampField (name : String) (get : α → Stamp) (x : α) :
    (stampField P name get).WellFormedAt x := by
  intro v hv
  obtain rfl := Option.some.inj hv
  exact .datetime _

@[simp] theorem wellFormedAt_valueField (name : String) (get : α → PyValue P.runtime.Float) (x : α) :
    (valueField P name get).WellFormedAt x ↔ WellFormed P.runtime (get x) := by
  constructor
  · intro h
    exact h _ rfl
  · intro h v hv
    obtain rfl := Option.some.inj hv
    exact h

theorem plain_observationFields : PlainFields (observationFields P) := by
  apply PlainFields.of_names
  simp only [observationFields, textField, valueField, List.map_cons, List.map_nil]
  decide

theorem plain_sourceFields : PlainFields (sourceFields P) := by
  apply PlainFields.of_names
  simp only [sourceFields, textField, valueField, List.map_cons, List.map_nil]
  decide

theorem plain_targetFields : PlainFields (targetFields P) := by
  apply PlainFields.of_names
  simp only [targetFields, textField, List.map_cons, List.map_nil]
  decide

theorem plain_correlationFields : PlainFields (correlationFields P) := by
  apply PlainFields.of_names
  simp only [correlationFields, textOrNoneField, List.map_cons, List.map_nil]
  decide

theorem wellFormed_observation {o : ObservationCoordinateV1 P}
    (hparts : WellFormed P.runtime (scalarsValue P o.parts)) :
    WellFormed P.runtime (dump (observationFields P) o) :=
  wellFormed_dump plain_observationFields (by simp [observationFields, hparts])

/-- An identity is well formed where the parts of its observation are. -/
theorem wellFormed_identity {i : RecordIdentityV1 P}
    (hparts : WellFormed P.runtime (scalarsValue P i.observation.parts)) :
    WellFormed P.runtime (dump (identityFields P) i) := by
  have hversion : WellFormed P.runtime (.int 1) := .int 1 (by decide)
  have hsource : WellFormed P.runtime (dump (sourceIdentityFields P) i.source) :=
    wellFormed_dump plain_sourceIdentityFields (by simp [sourceIdentityFields])
  exact wellFormed_dump plain_identityFields
    (by simp [identityFields, hversion, hsource, wellFormed_observation hparts])

theorem wellFormed_dedupe {d : RecordDedupeV1 P}
    (hparts : WellFormed P.runtime (scalarsValue P d.observation.parts)) :
    WellFormed P.runtime (dump (dedupeFields P) d) := by
  have hversion : WellFormed P.runtime (.int 1) := .int 1 (by decide)
  have hsource : WellFormed P.runtime (dump (dedupeSourceFields P) d.source) :=
    wellFormed_dump plain_dedupeSourceFields (by simp [dedupeSourceFields])
  exact wellFormed_dump plain_dedupeFields
    (by simp [dedupeFields, hversion, hsource, wellFormed_observation hparts])

/-- **A draft is well formed** where its observation, its dimensions and its data are. -/
theorem wellFormed_draft {d : RecordDraftV1 P}
    (hparts : WellFormed P.runtime (scalarsValue P d.source.observation.parts))
    (hdimensions : WellFormed P.runtime (scalarsValue P d.dimensions))
    (hdata : WellFormed P.runtime d.data) : WellFormed P.runtime (dump (draftFields P) d) := by
  have hsource : WellFormed P.runtime (dump (sourceFields P) d.source) :=
    wellFormed_dump plain_sourceFields (by simp [sourceFields, wellFormed_observation hparts])
  have hcorrelation : WellFormed P.runtime (dump (correlationFields P) d.correlation) :=
    wellFormed_dump plain_correlationFields (by simp [correlationFields])
  have hcollector : Field.WellFormedAt
      (⟨"collector", fun d => d.collector.map (dump (collectorFields P))⟩ :
        Field P (RecordDraftV1 P)) d := by
    intro v hv
    obtain ⟨collector, -, rfl⟩ := Option.map_eq_some_iff.mp hv
    exact wellFormed_dump plain_collectorFields (by simp [collectorFields])
  have htarget : Field.WellFormedAt
      (⟨"target", fun d => d.target.map (dump (targetFields P))⟩ : Field P (RecordDraftV1 P)) d := by
    intro v hv
    obtain ⟨target, -, rfl⟩ := Option.map_eq_some_iff.mp hv
    exact wellFormed_dump plain_targetFields (by simp [targetFields])
  exact wellFormed_dump plain_draftFields (by simp [draftFields, hsource, hcorrelation, hcollector,
    htarget, hdimensions, hdata])

theorem wellFormed_dropVersion {v : PyValue P.runtime.Float} (h : WellFormed P.runtime v) :
    WellFormed P.runtime (dropVersion v) := by
  cases h with
  | dict members hkeys hall =>
      exact .dict _ (hkeys.sublist (List.filter_sublist.map _)) fun m hm =>
        hall m (List.mem_filter.mp hm).1
  | none => exact .none
  | bool flag => exact .bool flag
  | int value hrange => exact .int value hrange
  | float value hfinite hrange => exact .float value hfinite hrange
  | str text => exact .str text
  | datetime stamp => exact .datetime stamp
  | list members hall => exact .list members hall

/-- **The content of a well-formed dump** is well formed. -/
theorem wellFormed_content {members : List (String × PyValue P.runtime.Float)}
    (h : WellFormed P.runtime (.dict members)) :
    WellFormed P.runtime (.dict (contentProjection members)) := by
  cases h with
  | dict _ hkeys hall =>
      unfold contentProjection
      refine .dict _ ?_ fun m hm => ?_
      · -- a member keeps its key
        have hsame : (fun m : String × PyValue P.runtime.Float => normalizeString P.runtime m.1) ∘
            (fun m => if m.1 = "collector" then (m.1, dropVersion m.2) else m) =
              fun m => normalizeString P.runtime m.1 := by
          funext m
          rw [Function.comp_apply]
          split <;> rfl
        rw [List.map_map, hsame]
        exact hkeys.sublist (List.filter_sublist.map _)
      · obtain ⟨kept, hkept, rfl⟩ := List.mem_map.mp hm
        have hwell := hall kept (List.mem_filter.mp hkept).1
        split
        · exact wellFormed_dropVersion hwell
        · exact hwell

end WellFormed

/-! ## Room -/

/-- A member takes its quoted key, its value and the colon between them. -/
theorem memberSize_quoted {P : CanonicalPlatform} (m : String × PyValue P.runtime.Float) :
    memberSize P.runtime m = (encodeUtf8 (quoteString P.runtime m.1)).length +
      ((encodeUtf8 (canonicalText P.runtime m.2)).length + 1) := by
  unfold memberSize memberText
  rw [quoteString, normalizeString_normalizeString, ← quoteString, encodeUtf8_append,
    List.length_append]
  rfl

/-- Quoted text takes at most six bytes for each of its own, and its quotes. -/
theorem length_quoteString_le_bytes (text : String) :
    (encodeUtf8 (quoteString samplePlatform.runtime text)).length ≤ 6 * text.utf8ByteSize + 2 := by
  -- the longest escape has six characters of one byte, and it is of one of one byte
  have hescape : ∀ c, (encodeUtf8 (escape c)).length ≤ 6 * c.utf8Size := by
    intro c
    have hpos := c.utf8Size_pos
    have hascii : ∀ n < 16, (encodeUtf8 [Nat.digitChar n]).length = 1 := by decide
    unfold escape
    split
    · rename_i e he
      have hshort : (shortEscapes.all fun e => (encodeUtf8 ['\\', e.2]).length ≤ 6) = true := by
        decide
      have hle := of_decide_eq_true (List.all_eq_true.mp hshort e (List.mem_of_find?_eq_some he))
      omega
    · split
      · rename_i hlow
        have hhigh := hascii (c.toNat / 16) (by omega)
        have hlower := hascii (c.toNat % 16) (by omega)
        have hstart : (encodeUtf8 ['\\', 'u', '0', '0']).length = 4 := by decide
        have hsplit : ['\\', 'u', '0', '0', Nat.digitChar (c.toNat / 16),
            Nat.digitChar (c.toNat % 16)] = ['\\', 'u', '0', '0'] ++
              ([Nat.digitChar (c.toNat / 16)] ++ [Nat.digitChar (c.toNat % 16)]) := rfl
        rw [hsplit, encodeUtf8_append, encodeUtf8_append, List.length_append, List.length_append]
        omega
      · have hone : (encodeUtf8 [c]).length = c.utf8Size := by
          rw [encodeUtf8, List.flatMap_singleton, String.length_utf8EncodeChar]
        omega
  have hescapes : ∀ cs : List Char,
      (encodeUtf8 (cs.flatMap escape)).length ≤ 6 * (encodeUtf8 cs).length := by
    intro cs
    induction cs with
    | nil => exact Nat.le_refl 0
    | cons c cs ih =>
        have hc := hescape c
        have hcons : (encodeUtf8 (c :: cs)).length = c.utf8Size + (encodeUtf8 cs).length := by
          rw [encodeUtf8, List.flatMap_cons, ← encodeUtf8, List.length_append,
            String.length_utf8EncodeChar]
        rw [List.flatMap_cons, encodeUtf8_append, List.length_append, hcons]
        omega
  -- normalizing the line ends drops characters, and writes line feeds
  have hlines : ∀ cs : List Char,
      (encodeUtf8 (normalizeLines cs)).length ≤ (encodeUtf8 cs).length := by
    have hcons : ∀ (c : Char) (cs : List Char),
        (encodeUtf8 (c :: cs)).length = c.utf8Size + (encodeUtf8 cs).length := by
      intro c cs
      rw [encodeUtf8, List.flatMap_cons, ← encodeUtf8, List.length_append,
        String.length_utf8EncodeChar]
    have hfeed : '\n'.utf8Size = 1 ∧ '\r'.utf8Size = 1 := by decide
    intro cs
    fun_induction normalizeLines cs with
    | case1 rest ih => simp only [hcons]; omega
    | case2 rest h ih => simp only [hcons]; omega
    | case3 c rest h hne ih => simp only [hcons]; omega
    | case4 => exact Nat.le_refl 0
  have htext : (normalizeString samplePlatform.runtime text).toList = normalizeLines text.toList :=
    String.toList_ofList
  have hsize : (encodeUtf8 text.toList).length = text.utf8ByteSize := by
    rw [← String.size_toByteArray, ← String.utf8Encode_toList, List.utf8Encode,
      List.size_toByteArray]
    rfl
  have hquote : (encodeUtf8 (quote (normalizeLines text.toList))).length =
      (encodeUtf8 ((normalizeLines text.toList).flatMap escape)).length + 2 := by
    have hmark : (encodeUtf8 ['"']).length = 1 := by decide
    have hsplit : quote (normalizeLines text.toList) =
        ['"'] ++ ((normalizeLines text.toList).flatMap escape ++ ['"']) := rfl
    rw [hsplit, encodeUtf8_append, encodeUtf8_append, List.length_append, List.length_append, hmark]
    omega
  have h1 := hescapes (normalizeLines text.toList)
  have h2 := hlines text.toList
  rw [quoteString, htext, hquote]
  omega

mutual

/-- More bytes than the canonical text of a value has. -/
def room : PyValue samplePlatform.runtime.Float → Nat
  | .str text => 6 * text.utf8ByteSize + 2
  | .dict members => 2 + memberRoom members
  | value => (encodeUtf8 (canonicalText samplePlatform.runtime value)).length

def memberRoom : List (String × PyValue samplePlatform.runtime.Float) → Nat
  | [] => 0
  | (key, value) :: rest => 6 * key.utf8ByteSize + 4 + room value + memberRoom rest

end

mutual

/-- **A canonical text fits into the room** of its value. -/
theorem length_canonicalText_le_room (v : PyValue samplePlatform.runtime.Float) :
    (encodeUtf8 (canonicalText samplePlatform.runtime v)).length ≤ room v := by
  cases v with
  | str text =>
      rw [canonicalText, room]
      exact length_quoteString_le_bytes text
  | dict members =>
      rw [room]
      by_cases hne : members = []
      · subst hne
        exact Nat.le_add_right 2 _
      · rw [length_canonicalText_dict hne]
        have hmembers := sum_memberSize_le members
        omega
  | none | bool _ | int _ | float _ | datetime _ | list _ => exact Nat.le_refl _

theorem sum_memberSize_le (members : List (String × PyValue samplePlatform.runtime.Float)) :
    (members.map fun m => memberSize samplePlatform.runtime m + 1).sum ≤ memberRoom members := by
  cases members with
  | nil => exact Nat.le_refl 0
  | cons m rest =>
      have hkey := length_quoteString_le_bytes m.1
      have hvalue := length_canonicalText_le_room m.2
      have hrest := sum_memberSize_le rest
      rw [List.map_cons, List.sum_cons, memberRoom, memberSize_quoted]
      omega

end

/-! ## Small drafts -/

/-- A value that is small enough for every limit of a record. -/
def Fits (v : PyValue samplePlatform.runtime.Float) : Prop :=
  v.nodes ≤ 900 ∧ v.height ≤ 8 ∧ room v ≤ 200000

instance (v : PyValue samplePlatform.runtime.Float) : Decidable (Fits v) :=
  inferInstanceAs (Decidable (_ ∧ _ ∧ _))

theorem canonical_of_fits {v : PyValue samplePlatform.runtime.Float}
    (hwell : WellFormed samplePlatform.runtime v) (h : Fits v) :
    ∃ bytes, canonicalJsonBytes samplePlatform.runtime recordLimits v = .ok bytes ∧
      bytes.length ≤ 200000 := by
  obtain ⟨hnodes, hheight, hroom⟩ := h
  have hlength := (length_canonicalText_le_room v).trans hroom
  have hlimits : recordLimits.maxNodes = 10000 ∧ recordLimits.maxDepth = 32 ∧
      recordLimits.maxBytes = 262144 := ⟨rfl, rfl, rfl⟩
  exact ⟨_, canonicalJsonBytes_eq_ok_iff.mpr
    ⟨⟨hwell, by omega, by omega, by omega⟩, rfl⟩, hlength⟩

variable {sha256 : List UInt8 → List UInt8}

theorem domainDigest_of_fits {domain : List UInt8} {v : PyValue samplePlatform.runtime.Float}
    (hwell : WellFormed samplePlatform.runtime v) (h : Fits v) :
    ∃ content, domainDigest samplePlatform sha256 domain v = .ok (sha256 content) := by
  obtain ⟨bytes, hbytes, -⟩ := canonical_of_fits hwell h
  unfold domainDigest
  rw [hbytes]
  exact ⟨_, rfl⟩

/-- **A small draft of well-formed parts is finalized**, with digests of 32 bytes. -/
theorem exists_finalizeRecord_of_room (hsha : ∀ content, (sha256 content).length = 32)
    {d : RecordDraftV1 samplePlatform} {installationId : String}
    (hparts : WellFormed samplePlatform.runtime
      (scalarsValue samplePlatform d.source.observation.parts))
    (hdimensions : WellFormed samplePlatform.runtime (scalarsValue samplePlatform d.dimensions))
    (hdata : WellFormed samplePlatform.runtime d.data)
    (hidentity : Fits (dump (identityFields samplePlatform) (d.identity installationId)))
    (hdedupe : Fits (dump (dedupeFields samplePlatform)
      (.fromIdentity (d.identity installationId))))
    (hcontent : Fits (.dict (contentProjection (dumpFields (draftFields samplePlatform) d))))
    (hdraft : Fits (dump (draftFields samplePlatform) d)) :
    ∃ r, finalizeRecord samplePlatform sha256 installationId d = .ok r := by
  have hwell := wellFormed_draft hparts hdimensions hdata
  obtain ⟨x, hx⟩ := @domainDigest_of_fits sha256 recordIdDomain _ (wellFormed_identity hparts)
    hidentity
  obtain ⟨y, hy⟩ := @domainDigest_of_fits sha256 dedupeDomain _ (wellFormed_dedupe hparts) hdedupe
  obtain ⟨z, hz⟩ := @domainDigest_of_fits sha256 contentDomain _ (wellFormed_content hwell) hcontent
  obtain ⟨bytes, hbytes, hlength⟩ := canonical_of_fits hwell hdraft
  let r : RecordEnvelopeV1 samplePlatform := ⟨d, "mh_" ++ base32Digest (sha256 x),
    "mh_d1_" ++ base32Digest (sha256 y), String.ofList (Radix.hex (sha256 z))⟩
  refine ⟨r, @finalizeRecord_of _ _ _ r ?_ ?_ ?_ ?_⟩
  · exact Except.bind_eq_ok_iff.mpr ⟨sha256 x, hx, rfl⟩
  · exact Except.bind_eq_ok_iff.mpr ⟨sha256 y, hy, rfl⟩
  · exact Except.bind_eq_ok_iff.mpr ⟨sha256 z, hz, rfl⟩
  · -- the envelope adds three short texts to the draft
    have hidText := length_quoteString_le r.recordId
    have hdedupeText := length_quoteString_le r.dedupeKey
    have hcontentText := length_quoteString_le r.contentHash
    have hidBase := Radix.length_base32_le (sha256 x)
    have hdedupeBase := Radix.length_base32_le (sha256 y)
    have hcontentHex := Radix.length_hex (sha256 z)
    have hidLength : r.recordId.toList.length = 3 + (Radix.base32 (sha256 x)).length :=
      length_token "mh_" _
    have hdedupeLength : r.dedupeKey.toList.length = 6 + (Radix.base32 (sha256 y)).length :=
      length_token "mh_d1_" _
    have hcontentLength : r.contentHash.toList.length = (Radix.hex (sha256 z)).length :=
      congrArg List.length String.toList_ofList
    have hlimits : recordLimits.maxNodes = 10000 ∧ recordLimits.maxBytes = 262144 := ⟨rfl, rfl⟩
    have hnodes : (dump (draftFields samplePlatform) r.draft).nodes ≤ 900 := hdraft.1
    rw [hsha] at hidBase hdedupeBase hcontentHex
    exact validateEnvelope_of hbytes (by omega) (by omega)

end Milhouse.Domain
