import Milhouse.Spool.WireFormat

/-!
# Milhouse — what the writer builds is accepted by the reader

The reader finds in a line of the writer the values that were written. It makes the header of them
again, and each frame around the record that the record's own validators read from its JSON. That
record can differ from the one that was written in what normalization removes from its texts.

* `decodeUtf8_encodeUtf8` — text that was encoded is decoded;
* `jsonObject_line` — a line is read back as the members that were written;
* **`parseHeader_of_line`**, **`parseFrame_of_line`** — headers and frames are read back.
-/

namespace Milhouse.Wire

open Json Text

/-! ## Text -/

/-- The bytes of a character stand for its number. -/
theorem unitNumber_utf8EncodeChar (c : Char) :
    Redact.unitNumber (String.utf8EncodeChar c) = c.toNat := by
  have hmax : c.val.toNat < 1114112 := by
    have := c.valid
    simp only [UInt32.isValidChar, Nat.isValidChar] at this
    omega
  show _ = c.val.toNat
  unfold String.utf8EncodeChar
  dsimp only
  repeat' split
  all_goals
    simp only [Redact.unitNumber, UInt8.toNat_ofNat', Nat.reducePow]
    omega

/-- The first byte of a character tells how many there are. -/
theorem utf8UnitLength_utf8EncodeChar (c : Char) : ∃ first rest,
    String.utf8EncodeChar c = first :: rest ∧ Redact.utf8UnitLength first = rest.length + 1 := by
  have hmax : c.val.toNat < 1114112 := by
    have := c.valid
    simp only [UInt32.isValidChar, Nat.isValidChar] at this
    omega
  unfold String.utf8EncodeChar
  dsimp only
  repeat' split
  all_goals
    refine ⟨_, _, rfl, ?_⟩
    simp only [Redact.utf8UnitLength, UInt8.toNat_ofNat', Nat.reducePow, List.length_cons,
      List.length_nil]
    repeat' split
    all_goals omega

/-- **Text that was encoded is decoded.** -/
theorem decodeUtf8_encodeUtf8 {text : List Char} {fuel : Nat}
    (h : (encodeUtf8 text).length ≤ fuel) :
    Redact.decodeUtf8 fuel (encodeUtf8 text) = some text := by
  induction text generalizing fuel with
  | nil => cases fuel <;> rfl
  | cons c text ih =>
      obtain ⟨first, rest, hencode, hlength⟩ := utf8UnitLength_utf8EncodeChar c
      have hsplit : encodeUtf8 (c :: text) = first :: (rest ++ encodeUtf8 text) := by
        show String.utf8EncodeChar c ++ encodeUtf8 text = _
        rw [hencode, List.cons_append]
      rw [hsplit, List.length_cons, List.length_append] at h
      obtain ⟨fuel, rfl⟩ : ∃ n, fuel = n + 1 := ⟨fuel - 1, by omega⟩
      have htake : (first :: (rest ++ encodeUtf8 text)).take (rest.length + 1) =
          String.utf8EncodeChar c := by
        rw [hencode, List.take_succ_cons, List.take_left]
      have hdrop : (first :: (rest ++ encodeUtf8 text)).drop (rest.length + 1) = encodeUtf8 text := by
        rw [List.drop_succ_cons, List.drop_left]
      have hunit : Redact.decodeUnit (String.utf8EncodeChar c) = some c := by
        unfold Redact.decodeUnit
        dsimp only
        rw [unitNumber_utf8EncodeChar, Char.ofNat_toNat, if_pos rfl]
      rw [hsplit, Redact.decodeUtf8, hlength, if_neg (by omega), htake, hunit, hdrop]
      dsimp only
      rw [ih (by omega)]
      rfl

/-! ## Members -/

section Members

variable {P : CanonicalPlatform}

/-- A value that was written, as `json.loads` gives it. -/
def objectOf (v : PyValue P.runtime.Float) : PyJson.Obj P.Float := PyJson.ofValue P.numerals (normal P v)

/-- The members of a line of the writer, as `json.loads` gives them. -/
def readMembers (ms : List (String × PyValue P.runtime.Float)) :
    List (List CodePoint × PyJson.Obj P.Float) :=
  ms.map fun m => (m.1.toList.map ofChar, objectOf m.2)

theorem ofMembers_eq_readMembers (ms : List (String × PyValue P.runtime.Float)) :
    PyJson.ofMembers P.numerals (ms.map fun m => (m.1.toList, normal P m.2)) = readMembers ms := by
  induction ms with
  | nil => rfl
  | cons m ms ih =>
      rw [List.map_cons, PyJson.ofMembers, ih]
      rfl

theorem toCodePoints_injective : Function.Injective fun name : String => name.toList.map ofChar := by
  intro a b hab
  have hscalars := scalars_map_ofChar a.toList
  rw [show a.toList.map ofChar = b.toList.map ofChar from hab, scalars_map_ofChar] at hscalars
  exact String.toList_inj.mp (Option.some.inj hscalars).symm

/-- The member under a name is the value that was written under it. -/
theorem item_readMembers {ms : List (String × PyValue P.runtime.Float)} {name : String}
    {v : PyValue P.runtime.Float} (hnodup : (ms.map Prod.fst).Nodup) (hm : (name, v) ∈ ms) :
    item (readMembers ms) name = objectOf v := by
  have hlookup : (readMembers ms).lookup (name.toList.map ofChar) = some (objectOf v) := by
    unfold readMembers
    induction ms with
    | nil => cases hm
    | cons m ms ih =>
        rw [List.map_cons, List.nodup_cons] at hnodup
        rw [List.map_cons]
        rcases List.mem_cons.mp hm with rfl | hm
        · exact List.lookup_cons_self
        · have hne : name ≠ m.1 := by
            rintro rfl
            exact hnodup.1 (List.mem_map.mpr ⟨(m.1, v), hm, rfl⟩)
          rw [List.lookup_cons, beq_eq_false_iff_ne.mpr fun heq => hne (toCodePoints_injective heq)]
          exact ih hnodup.2 hm
  unfold item
  rw [hlookup]
  rfl

theorem hasKeys_readMembers (ms : List (String × PyValue P.runtime.Float)) :
    hasKeys (readMembers ms) (ms.map Prod.fst) = true := by
  unfold hasKeys readMembers
  rw [Bool.and_eq_true, List.all_eq_true, List.all_eq_true]
  constructor
  · intro member hmember
    obtain ⟨m, hm, rfl⟩ := List.mem_map.mp hmember
    exact List.any_eq_true.mpr ⟨m.1, List.mem_map_of_mem hm, decide_eq_true rfl⟩
  · intro name hname
    obtain ⟨m, hm, rfl⟩ := List.mem_map.mp hname
    exact List.any_eq_true.mpr ⟨_, List.mem_map_of_mem hm, decide_eq_true rfl⟩

theorem objectOf_str {text : String} (h : IsWireText text) :
    objectOf (P := P) (.str text) = ofText text := by
  unfold objectOf
  rw [normal, PyJson.ofValue, normalizeString_ascii h.ascii]
  rfl

theorem objectOf_int (n : Int) : objectOf (P := P) (.int n) = .int n := by
  unfold objectOf
  rw [normal, PyJson.ofValue]
  rfl

theorem objectOf_texts {texts : List String} (h : ∀ text ∈ texts, IsWireText text) :
    objectOf (P := P) (.list (texts.map .str)) = .list (texts.map ofText) := by
  have hmap : ∀ elements : List (Value P.fractions),
      PyJson.ofElements P.numerals elements = elements.map (PyJson.ofValue P.numerals) := by
    intro elements
    induction elements with
    | nil => rfl
    | cons v rest ih => rw [PyJson.ofElements, ih, List.map_cons]
  unfold objectOf
  rw [normal_list, PyJson.ofValue, hmap, List.map_map, List.map_map]
  congr 1
  exact List.map_congr_left fun text htext => objectOf_str (h text htext)

end Members

/-! ## Lines -/

section Reading

variable {P : CanonicalPlatform} {wire : WireRuntime P}

/-- No text that nests no deeper than what the encoder writes exhausts the stack of `json.loads`. -/
def WireRuntime.Shallow (wire : WireRuntime P) : Prop :=
  ∀ v : PyValue P.runtime.Float, v.height ≤ defaultMaxDepth →
    wire.recursionError ((normal P v).text ++ ['\n']) = false

theorem short_of_wellFormed {v : PyValue P.runtime.Float} (h : WellFormed P.runtime v) :
    PyJson.Short (PyJson.ints (normal P v)) := by
  intro n hn
  have hbig : 2 ^ 63 < 10 ^ PyJson.intMaxStrDigits :=
    (by decide : 2 ^ 63 < 10 ^ 20).trans_le (Nat.pow_le_pow_right (by decide) (by decide))
  exact (natAbs_le_of_inCanonicalRange (ints_normal h n hn)).trans_lt hbig

/-- **A line is read back as the members that were written**, under names in order. -/
theorem jsonObject_line (hshallow : wire.Shallow) {bound : Nat}
    {ms : List (String × PyValue P.runtime.Float)} {line : Bytes} {code : String}
    (hwire : ∀ m ∈ ms, IsWireText m.1) (hsorted : (ms.map Prod.fst).Pairwise (· < ·))
    (h : (canonicalJsonBytes P.runtime (lineLimits bound) (.dict ms)).map (· ++ [lineFeed]) =
      .ok line) :
    jsonObject wire line code = .ok (readMembers ms) := by
  obtain ⟨bytes, hbytes, rfl⟩ := line_eq_ok h
  obtain ⟨⟨hwell, -, hheight, -⟩, -⟩ := canonicalJsonBytes_eq_ok_iff.mp hbytes
  have htext : bytes ++ [lineFeed] = encodeUtf8 ((normal P (.dict ms)).text ++ ['\n']) := by
    rw [(canonicalJsonBytes_ok hbytes).2, encodeUtf8_append]
    rfl
  have hobject : objectOf (.dict ms) = .dict (readMembers ms) := by
    have hle : (ms.map Prod.fst).Pairwise (· ≤ ·) := hsorted.imp fun hlt => le_of_lt hlt
    have hnodup : ((readMembers ms).map Prod.fst).Nodup := by
      unfold readMembers
      rw [List.map_map]
      have hnames : (ms.map Prod.fst).Nodup := hsorted.imp fun hlt => ne_of_lt hlt
      have hpoints := hnames.map toCodePoints_injective
      rwa [List.map_map] at hpoints
    unfold objectOf
    rw [normal_dict, sortedMembers_of_ascii (fun m hm => (hwire m hm).ascii) hle, PyJson.ofValue,
      ofMembers_eq_readMembers, @PyJson.toDict_of_nodup P.floats _ hnodup]
    rfl
  have hread : PyJson.loads (P := P.floats) ((normal P (.dict ms)).text ++ ['\n']) =
      some (objectOf (.dict ms)) :=
    PyJson.loads_of_load P.numerals (load_text _ ['\n'] (List.all_eq_true.mp (by decide)))
      (short_of_wellFormed hwell)
  have hloads := hread.trans (congrArg some hobject)
  unfold jsonObject decodeLine
  rw [htext, decodeUtf8_encodeUtf8 (Nat.le_refl _), Option.bind_some,
    if_neg (by rw [hshallow _ hheight]; exact Bool.false_ne_true), hloads]

/-! ## Headers -/

theorem sorted_headerKeys : headerKeys.Pairwise (· < ·) := by decide

/-- The members of a header line are the values of the header. -/
theorem headerRead_of_line (header : SegmentHeaderV1) :
    HeaderRead (readMembers (headerPayload P.runtime header))
      (header.requiredExporters.map ofText) header := by
  have hvalid := fieldsValid_of_check header.valid
  have hnodup : ((headerPayload P.runtime header).map Prod.fst).Nodup :=
    sorted_headerKeys.imp fun hlt => ne_of_lt hlt
  have hitem : ∀ {name : String} {v : PyValue P.runtime.Float},
      (name, v) ∈ headerPayload P.runtime header →
        item (readMembers (headerPayload P.runtime header)) name = objectOf v :=
    fun hm => item_readMembers hnodup hm
  have htarget : objectOf (P := P) ((header.targetId.map .str).getD .none) =
      ofTextOrNone header.targetId := by
    cases htargetId : header.targetId with
    | none => rfl
    | some target => exact objectOf_str (target_of_header htargetId).1
  exact
    { batchId := (hitem (by simp [headerPayload])).trans
        (objectOf_str (isWireText_of_matchesId hvalid.batchId).1)
      configGeneration := (hitem (by simp [headerPayload])).trans
        (objectOf_str (isWireText_of_matchesSha256 hvalid.configGeneration))
      scope := (hitem (by simp [headerPayload])).trans (objectOf_str (isWireText_scope _))
      targetId := (hitem (by simp [headerPayload])).trans htarget
      privacyClass := (hitem (by simp [headerPayload])).trans (objectOf_str (isWireText_privacyClass _))
      retentionDays := (hitem (by simp [headerPayload])).trans (objectOf_int _)
      exporters := rfl
      recordCount := (hitem (by simp [headerPayload])).trans (objectOf_int _)
      contentSha256 := (hitem (by simp [headerPayload])).trans
        (objectOf_str (isWireText_of_matchesSha256 hvalid.contentSha256)) }

theorem equalsInt_int (n : Int) : equalsInt (P := P) (.int n) n = true := decide_eq_true rfl

/-- **A header is read back from its line.** -/
theorem parseHeader_of_line (hshallow : wire.Shallow) {header : SegmentHeaderV1} {line : Bytes}
    (h : spoolSegmentHeaderLine P.runtime header = .ok line) :
    parseHeader wire line = .ok header := by
  have hobject : jsonObject wire line "MH_SPOOL_HEADER" =
      .ok (readMembers (headerPayload P.runtime header)) :=
    jsonObject_line hshallow (headerPayload_wire header) sorted_headerKeys h
  have hnodup : ((headerPayload P.runtime header).map Prod.fst).Nodup :=
    sorted_headerKeys.imp fun hlt => ne_of_lt hlt
  have hkeys : hasKeys (readMembers (headerPayload P.runtime header)) headerKeys = true :=
    hasKeys_readMembers _
  have hschema : item (readMembers (headerPayload P.runtime header)) "schema" = .int schemaVersion :=
    (item_readMembers hnodup (by simp [headerPayload])).trans (objectOf_int _)
  have hversion : item (readMembers (headerPayload P.runtime header)) "frame_version" =
      .int frameVersion :=
    (item_readMembers hnodup (by simp [headerPayload])).trans (objectOf_int _)
  have hexporters : item (readMembers (headerPayload P.runtime header)) "required_exporters" =
      .list (header.requiredExporters.map ofText) :=
    (item_readMembers hnodup (by simp [headerPayload])).trans (objectOf_texts isWireText_exporters)
  unfold parseHeader
  refine Except.bind_eq_ok_iff.mpr ⟨_, hobject, ?_⟩
  rw [hkeys, hschema, hversion, equalsInt_int, equalsInt_int, hexporters]
  refine Except.bind_eq_ok_iff.mpr ⟨header, makeHeader_eq_ok_iff.mpr (headerRead_of_line header), ?_⟩
  refine Except.bind_eq_ok_iff.mpr ⟨line, encoded_eq_ok_iff.mpr h, ?_⟩
  exact if_neg fun hne => hne rfl

/-! ## Frames -/

/-- The validators of a record read it back from its JSON as a record that is written alike. -/
structure Rereads (wire : WireRuntime P) (record record' : FinalizedRecord P) : Prop where
  reads : ∃ members, objectOf record.dump = .dict members ∧
    wire.modelValidateJson members = some record'
  same : SameRecord record record'
  targetId : record'.targetId = record.targetId

/-- The frame around another record. -/
def SpoolFrameV1.withRecord (frame : SpoolFrameV1 P) (record : FinalizedRecord P) : SpoolFrameV1 P :=
  { frame with record }

theorem sorted_frameKeys : frameKeys.Pairwise (· < ·) := by decide

/-- **A frame is read back from its line**, around the record that its validators read. -/
theorem parseFrame_of_line (hshallow : wire.Shallow) {header : SegmentHeaderV1} {sequence : Nat}
    {frame : SpoolFrameV1 P} {record : FinalizedRecord P} {line : Bytes}
    (hreads : Rereads wire frame.record record) (hline : spoolFrameLine frame = .ok line)
    (hcheck : checkFrame header sequence frame = .ok ()) :
    parseFrame wire line header sequence = .ok (frame.withRecord record) := by
  have hobject : jsonObject wire line "MH_SPOOL_FRAME" = .ok (readMembers (framePayload frame)) :=
    jsonObject_line hshallow (framePayload_wire frame) sorted_frameKeys hline
  have hnodup : ((framePayload frame).map Prod.fst).Nodup :=
    sorted_frameKeys.imp fun hlt => ne_of_lt hlt
  have hkeys : hasKeys (readMembers (framePayload frame)) frameKeys = true := hasKeys_readMembers _
  have hbatchId : item (readMembers (framePayload frame)) "batch_id" = ofText frame.batchId :=
    (item_readMembers hnodup (by simp [framePayload])).trans
      (objectOf_str (isWireText_of_matchesId frame.validBatchId).1)
  have hversion : item (readMembers (framePayload frame)) "frame_version" = .int frameVersion :=
    (item_readMembers hnodup (by simp [framePayload])).trans (objectOf_int _)
  have hrecordId : item (readMembers (framePayload frame)) "record_id" =
      ofText frame.record.recordId :=
    (item_readMembers hnodup (by simp [framePayload])).trans
      (objectOf_str (isWireText_recordId frame.record.recordId_valid).1)
  have hsequence : item (readMembers (framePayload frame)) "sequence" = .int frame.sequence :=
    (item_readMembers hnodup (by simp [framePayload])).trans (objectOf_int _)
  obtain ⟨⟨members, hmembers, hvalidate⟩, hsame, htargetId⟩ := hreads
  have hrecord : item (readMembers (framePayload frame)) "record" = .dict members :=
    (item_readMembers hnodup (by simp [framePayload])).trans hmembers
  have hmade : makeFrame (item (readMembers (framePayload frame)) "batch_id")
      (item (readMembers (framePayload frame)) "sequence") record = .ok (frame.withRecord record) :=
    makeFrame_eq_ok_iff.mpr ⟨hbatchId, hsequence, rfl⟩
  have hwritten : spoolFrameLine (frame.withRecord record) = .ok line :=
    @frameLine_of_same _ frame (frame.withRecord record) line ⟨rfl, rfl, hsame⟩ hline
  have hid : textOf (ofText frame.record.recordId : PyJson.Obj P.Float) = some record.recordId :=
    (textOf_eq_some_iff.mpr rfl).trans (congrArg some hsame.recordId)
  -- the record was checked against the header when it was written
  unfold checkFrame at hcheck
  obtain ⟨hnumber, hcheck⟩ := passed_last hcheck
  obtain ⟨hbatch, hcheck⟩ := passed_last hcheck
  obtain ⟨hscope, hcheck⟩ := passed_last hcheck
  obtain ⟨htarget, hcheck⟩ := passed_last hcheck
  obtain ⟨hprivacy, -⟩ := passed_last hcheck
  unfold parseFrame
  refine Except.bind_eq_ok_iff.mpr ⟨_, hobject, ?_⟩
  rw [hkeys, hversion, equalsInt_int, if_neg (by decide), if_neg (by decide), hrecord]
  refine Except.bind_eq_ok_iff.mpr ⟨record, ?_, ?_⟩
  · unfold reconstructRecord
    rw [hvalidate]
  refine Except.bind_eq_ok_iff.mpr ⟨_, hmade, ?_⟩
  have hnumber' : ¬ (frame.withRecord record).sequence ≠ sequence := hnumber
  have hbatch' : ¬ (frame.withRecord record).batchId ≠ header.batchId := hbatch
  rw [if_neg hnumber', if_neg hbatch', hrecordId, if_neg (fun hne => hne hid), ← hsame.scope,
    if_neg hscope, htargetId, if_neg htarget, ← hsame.privacyClass, if_neg hprivacy]
  refine Except.bind_eq_ok_iff.mpr ⟨line, encoded_eq_ok_iff.mpr hwritten, ?_⟩
  exact if_neg fun hne => hne rfl

end Reading

end Milhouse.Wire
