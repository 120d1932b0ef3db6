import Milhouse.Lib.Fallible
import Milhouse.Spool.Wire

/-!
# Milhouse — the values that a line is read from

A check of the reader takes one value of the line and gives the field that it is written as. So a
header or a frame that was made of a line has its own values in that line, and any header or frame is
made of its own values again.

* **`makeHeader_eq_ok_iff`** — a header is made exactly of its own values;
* `makeFrame_eq_ok_iff` — and so is a frame.
-/

namespace Milhouse.Wire

open Text

section Values

variable {P : CanonicalPlatform} {F : Type} {code message : String} {value : PyJson.Obj F}

/-- What `json.loads` gives for a text without surrogates. -/
def ofText (text : String) : PyJson.Obj F := .str (text.toList.map ofChar)

/-- What it gives for a text or for `null`. -/
def ofTextOrNone (text : Option String) : PyJson.Obj F := (text.map ofText).getD .none

theorem textOf_eq_some_iff {text : String} : textOf value = some text ↔ value = ofText text := by
  constructor
  · intro h
    cases value with
    | str points =>
        obtain ⟨chars, hchars, rfl⟩ := Option.map_eq_some_iff.mp h
        rw [ofText, String.toList_ofList, scalars_eq_some_iff.mp hchars]
    | _ => cases h
  · rintro rfl
    show (Text.scalars (text.toList.map ofChar)).map String.ofList = some text
    rw [scalars_map_ofChar, Option.map_some, String.ofList_toList]

theorem requireText_eq_ok_iff {pattern : String → Bool} {t : { text : String // pattern text = true }} :
    requireText pattern code message value = .ok t ↔ value = ofText t.1 := by
  unfold requireText
  constructor
  · intro h
    split at h
    · rename_i text htext
      split at h
      · obtain rfl := Except.ok.inj h
        exact textOf_eq_some_iff.mp htext
      · cases h
    · cases h
  · intro h
    rw [textOf_eq_some_iff.mpr h]
    dsimp only
    rw [dif_pos t.2]

theorem requireInt_eq_ok_iff {low high : Nat} {t : { n : Nat // low ≤ n ∧ n ≤ high }} :
    requireInt low high code message value = .ok t ↔ value = .int t.1 := by
  unfold requireInt
  constructor
  · intro h
    cases value with
    | int n =>
        dsimp only at h
        split at h
        · split at h
          · rename_i hnonneg
            obtain rfl := Except.ok.inj h
            rw [Int.toNat_of_nonneg hnonneg]
          · cases h
        · cases h
    | _ => cases h
  · rintro rfl
    dsimp only
    rw [dif_pos (by simpa using t.2), if_pos (Int.natCast_nonneg _)]
    rfl

theorem requireScope_eq_ok_iff {scope : Scope} :
    requireScope value = .ok scope ↔ value = ofText (Domain.scopeText scope) := by
  unfold requireScope
  constructor
  · intro h
    split at h
    · rename_i htext
      obtain rfl := Except.ok.inj h
      exact textOf_eq_some_iff.mp htext
    · rename_i htext
      obtain rfl := Except.ok.inj h
      exact textOf_eq_some_iff.mp htext
    · cases h
  · intro h
    rw [textOf_eq_some_iff.mpr h]
    cases scope <;> rfl

theorem requireTarget_eq_ok_iff {scope : Scope}
    {t : { target : Option String // targetFits scope target = true }} :
    requireTarget scope value = .ok t ↔ value = ofTextOrNone t.1 := by
  obtain ⟨target, htarget⟩ := t
  cases scope with
  | target =>
      unfold requireTarget
      cases target with
      | none => cases htarget
      | some target =>
          constructor
          · intro h
            obtain ⟨text, htext, h⟩ := Except.bind_eq_ok_iff.mp h
            have heq : some text.1 = some target := congrArg Subtype.val (Except.ok.inj h)
            rw [requireText_eq_ok_iff.mp htext, Option.some.inj heq]
            rfl
          · intro h
            refine Except.bind_eq_ok_iff.mpr ⟨⟨target, htarget⟩, ?_, rfl⟩
            exact requireText_eq_ok_iff.mpr h
  | installation =>
      unfold requireTarget
      cases target with
      | some target => cases htarget
      | none =>
          constructor
          · intro h
            cases value with
            | none => rfl
            | _ => cases h
          · rintro rfl
            rfl

theorem requirePrivacy_eq_ok_iff {t : { privacy : PrivacyClass // privacy ≠ .restricted }} :
    requirePrivacy value = .ok t ↔ value = ofText (Domain.privacyClassText t.1) := by
  unfold requirePrivacy
  constructor
  · intro h
    split at h
    · rename_i htext
      obtain rfl := Except.ok.inj h
      exact textOf_eq_some_iff.mp htext
    · rename_i htext
      obtain rfl := Except.ok.inj h
      exact textOf_eq_some_iff.mp htext
    · rename_i htext
      obtain rfl := Except.ok.inj h
      exact textOf_eq_some_iff.mp htext
    · cases h
  · intro h
    rw [textOf_eq_some_iff.mpr h]
    obtain ⟨privacy, hprivacy⟩ := t
    cases privacy with
    | «public» => rfl
    | internal => rfl
    | sensitive => rfl
    | restricted => exact absurd rfl hprivacy

theorem requireExporters_eq_ok_iff {values : List (PyJson.Obj F)}
    {t : { ids : List String // ids.all matchesExporterId = true }} :
    requireExporters values = .ok t ↔ values = t.1.map ofText := by
  obtain ⟨ids, hids⟩ := t
  induction values generalizing ids with
  | nil =>
      rw [requireExporters]
      constructor
      · intro h
        have heq : [] = ids := congrArg Subtype.val (Except.ok.inj h)
        show [] = ids.map ofText
        rw [← heq]
        rfl
      · intro h
        have heq : ids = [] := List.map_eq_nil_iff.mp h.symm
        subst heq
        rfl
  | cons value rest ih =>
      rw [requireExporters]
      constructor
      · intro h
        obtain ⟨first, hfirst, h⟩ := Except.bind_eq_ok_iff.mp h
        obtain ⟨others, hothers, h⟩ := Except.bind_eq_ok_iff.mp h
        have heq : first.1 :: others.1 = ids := congrArg Subtype.val (Except.ok.inj h)
        show value :: rest = ids.map ofText
        rw [← heq, List.map_cons, ← requireText_eq_ok_iff.mp hfirst,
          ← (ih others.1 others.2).mp hothers]
      · intro h
        cases ids with
        | nil => cases h
        | cons id ids =>
            rw [List.map_cons, List.cons.injEq] at h
            rw [List.all_cons, Bool.and_eq_true] at hids
            refine Except.bind_eq_ok_iff.mpr ⟨⟨id, hids.1⟩, requireText_eq_ok_iff.mpr h.1, ?_⟩
            exact Except.bind_eq_ok_iff.mpr ⟨⟨ids, hids.2⟩, (ih ids hids.2).mpr h.2, rfl⟩

/-! ## Headers -/

/-- The values of a line are those of a header. -/
structure HeaderRead (members : List (List CodePoint × PyJson.Obj F))
    (exporters : List (PyJson.Obj F)) (header : SegmentHeaderV1) : Prop where
  batchId : item members "batch_id" = ofText header.batchId
  configGeneration : item members "config_generation" = ofText header.configGeneration
  scope : item members "scope" = ofText (Domain.scopeText header.scope)
  targetId : item members "target_id" = ofTextOrNone header.targetId
  privacyClass : item members "privacy_class" = ofText (Domain.privacyClassText header.privacyClass)
  retentionDays : item members "retention_days" = .int header.retentionDays
  exporters : exporters = header.requiredExporters.map ofText
  recordCount : item members "record_count" = .int header.recordCount
  contentSha256 : item members "content_sha256" = ofText header.contentSha256

/-- **A header is made exactly of its own values.** -/
theorem makeHeader_eq_ok_iff {members : List (List CodePoint × PyJson.Obj F)}
    {exporters : List (PyJson.Obj F)} {header : SegmentHeaderV1} :
    makeHeader members exporters = .ok header ↔ HeaderRead members exporters header := by
  unfold makeHeader
  constructor
  · intro h
    -- The checks in the order of the constructor, the order of the exporters after their ids.
    obtain ⟨batchId, hbatchId, h⟩ := Except.bind_eq_ok_iff.mp h
    obtain ⟨configGeneration, hconfigGeneration, h⟩ := Except.bind_eq_ok_iff.mp h
    obtain ⟨scope, hscope, h⟩ := Except.bind_eq_ok_iff.mp h
    obtain ⟨targetId, htargetId, h⟩ := Except.bind_eq_ok_iff.mp h
    obtain ⟨privacyClass, hprivacyClass, h⟩ := Except.bind_eq_ok_iff.mp h
    obtain ⟨retentionDays, hretentionDays, h⟩ := Except.bind_eq_ok_iff.mp h
    obtain ⟨ids, hids, h⟩ := Except.bind_eq_ok_iff.mp h
    split at h
    · obtain ⟨recordCount, hrecordCount, h⟩ := Except.bind_eq_ok_iff.mp h
      obtain ⟨contentSha256, hcontentSha256, h⟩ := Except.bind_eq_ok_iff.mp h
      obtain rfl := Except.ok.inj h
      exact
        { batchId := requireText_eq_ok_iff.mp hbatchId
          configGeneration := requireText_eq_ok_iff.mp hconfigGeneration
          scope := requireScope_eq_ok_iff.mp hscope
          targetId := requireTarget_eq_ok_iff.mp htargetId
          privacyClass := requirePrivacy_eq_ok_iff.mp hprivacyClass
          retentionDays := requireInt_eq_ok_iff.mp hretentionDays
          exporters := requireExporters_eq_ok_iff.mp hids
          recordCount := requireInt_eq_ok_iff.mp hrecordCount
          contentSha256 := requireText_eq_ok_iff.mp hcontentSha256 }
    · cases h
  · intro h
    -- Conversely every field of a header passes its own check.
    have hvalid := fieldsValid_of_check header.valid
    refine Except.bind_eq_ok_iff.mpr
      ⟨⟨header.batchId, hvalid.batchId⟩, requireText_eq_ok_iff.mpr h.batchId, ?_⟩
    refine Except.bind_eq_ok_iff.mpr ⟨⟨header.configGeneration, hvalid.configGeneration⟩,
      requireText_eq_ok_iff.mpr h.configGeneration, ?_⟩
    refine Except.bind_eq_ok_iff.mpr ⟨header.scope, requireScope_eq_ok_iff.mpr h.scope, ?_⟩
    refine Except.bind_eq_ok_iff.mpr
      ⟨⟨header.targetId, hvalid.targetId⟩, requireTarget_eq_ok_iff.mpr h.targetId, ?_⟩
    refine Except.bind_eq_ok_iff.mpr ⟨⟨header.privacyClass, hvalid.privacyClass⟩,
      requirePrivacy_eq_ok_iff.mpr h.privacyClass, ?_⟩
    refine Except.bind_eq_ok_iff.mpr ⟨⟨header.retentionDays, hvalid.retentionDays⟩,
      requireInt_eq_ok_iff.mpr h.retentionDays, ?_⟩
    refine Except.bind_eq_ok_iff.mpr ⟨⟨header.requiredExporters, hvalid.exporterIds⟩,
      requireExporters_eq_ok_iff.mpr h.exporters, ?_⟩
    rw [dif_pos hvalid.sorted]
    refine Except.bind_eq_ok_iff.mpr ⟨⟨header.recordCount, hvalid.recordCount⟩,
      requireInt_eq_ok_iff.mpr h.recordCount, ?_⟩
    exact Except.bind_eq_ok_iff.mpr ⟨⟨header.contentSha256, hvalid.contentSha256⟩,
      requireText_eq_ok_iff.mpr h.contentSha256, rfl⟩

/-! ## Frames -/

/-- A frame is made exactly of its own values. -/
theorem makeFrame_eq_ok_iff {batchId sequence : PyJson.Obj F} {record : FinalizedRecord P}
    {frame : SpoolFrameV1 P} :
    makeFrame batchId sequence record = .ok frame ↔
      batchId = ofText frame.batchId ∧ sequence = .int frame.sequence ∧ frame.record = record := by
  unfold makeFrame
  constructor
  · intro h
    obtain ⟨batch, hbatch, h⟩ := Except.bind_eq_ok_iff.mp h
    obtain ⟨number, hnumber, h⟩ := Except.bind_eq_ok_iff.mp h
    obtain rfl := Except.ok.inj h
    exact ⟨requireText_eq_ok_iff.mp hbatch, requireInt_eq_ok_iff.mp hnumber, rfl⟩
  · rintro ⟨hbatch, hnumber, rfl⟩
    refine Except.bind_eq_ok_iff.mpr
      ⟨⟨frame.batchId, frame.validBatchId⟩, requireText_eq_ok_iff.mpr hbatch, ?_⟩
    exact Except.bind_eq_ok_iff.mpr
      ⟨⟨frame.sequence, frame.validSequence⟩, requireInt_eq_ok_iff.mpr hnumber, rfl⟩

end Values

end Milhouse.Wire
