import Milhouse.Spool.WireLines
import Milhouse.Spool.WireValues

/-!
# Milhouse — the header of a line can be written

The reader writes the header it made of a line, to compare the two. A header could be too large for
its line; one that was made of a line is not, since its own values in that line take as many bytes.

* `encodeUtf8_of_decodeUtf8` — text that was decoded is written as the bytes it was decoded from;
* `spelled_le_line` — a line has at least the bytes that its object takes;
* **`spoolSegmentHeaderLine_of_read`** — a header that was read from a line has a line.
-/

namespace Milhouse.Wire

open Json Text

section Lines

variable {P : CanonicalPlatform} (wire : WireRuntime P)

/-! ## Lines -/

/-- Text that was decoded is written as the bytes it was decoded from. -/
theorem encodeUtf8_of_decodeUtf8 {fuel : Nat} {bytes : Bytes} {text : List Char}
    (h : Redact.decodeUtf8 fuel bytes = some text) : encodeUtf8 text = bytes := by
  induction fuel generalizing bytes text with
  | zero =>
      cases bytes with
      | nil => obtain rfl := Option.some.inj h; rfl
      | cons first rest => cases h
  | succ fuel ih =>
      cases bytes with
      | nil => obtain rfl := Option.some.inj h; rfl
      | cons first rest =>
          rw [Redact.decodeUtf8] at h
          split at h
          · cases h
          · split at h
            · cases h
            · rename_i c hunit
              obtain ⟨chars, hchars, rfl⟩ := Option.map_eq_some_iff.mp h
              unfold Redact.decodeUnit at hunit
              dsimp only at hunit
              split at hunit
              · rename_i hencode
                obtain rfl := Option.some.inj hunit
                show String.utf8EncodeChar _ ++ encodeUtf8 chars = first :: rest
                rw [hencode, ih hchars, List.take_append_drop]
              · cases hunit

/-- A printed character is encoded without a line feed. -/
theorem lineFeed_notMem {c : Char} (h : 32 ≤ c.toNat) : lineFeed ∉ String.utf8EncodeChar c := by
  have hmax : c.val.toNat < 1114112 := by
    have := c.valid
    simp only [UInt32.isValidChar, Nat.isValidChar] at this
    omega
  have hlow : 32 ≤ c.val.toNat := h
  have hten : lineFeed.toNat = 10 := rfl
  unfold String.utf8EncodeChar
  dsimp only
  repeat' split
  all_goals
    intro hmem
    simp only [List.mem_cons, List.not_mem_nil, or_false, ← UInt8.toNat_inj, UInt8.toNat_ofNat',
      Nat.reducePow, hten] at hmem
    omega

/-- Each printed character has a byte that is no line feed. -/
theorem printed_le_countP (text : List Char) :
    PyJson.printed text ≤ (encodeUtf8 text).countP (· ≠ lineFeed) := by
  induction text with
  | nil => exact Nat.le_refl 0
  | cons c text ih =>
      have hsplit : encodeUtf8 (c :: text) = String.utf8EncodeChar c ++ encodeUtf8 text := rfl
      rw [hsplit, List.countP_append]
      unfold PyJson.printed at ih ⊢
      rw [List.countP_cons]
      split
      · rename_i hprinted
        have hfree := lineFeed_notMem (of_decide_eq_true hprinted)
        have hall : (String.utf8EncodeChar c).countP (· ≠ lineFeed) =
            (String.utf8EncodeChar c).length :=
          List.countP_eq_length.mpr fun byte hbyte =>
            decide_eq_true (ne_of_mem_of_not_mem hbyte hfree)
        have hpos := Char.utf8Size_pos c
        rw [String.length_utf8EncodeChar] at hall
        omega
      · omega

/-- A line that was parsed is UTF-8 and one JSON object. -/
theorem jsonObject_ok {line : Bytes} {code : String} {members : List (List CodePoint × PyJson.Obj P.Float)}
    (h : jsonObject wire line code = .ok members) :
    ∃ text, encodeUtf8 text = line ∧ PyJson.loads (P := P.floats) text = some (.dict members) := by
  unfold jsonObject at h
  split at h
  · rename_i found hread
    obtain rfl := Except.ok.inj h
    obtain ⟨text, htext, hloads⟩ := Option.bind_eq_some_iff.mp hread
    split at hloads
    · cases hloads
    · exact ⟨text, encodeUtf8_of_decodeUtf8 htext, hloads⟩
  · cases h

/-- **A line has at least the bytes that its object takes**, besides its line feed. -/
theorem spelled_le_line {line : Bytes} {code : String}
    {members : List (List CodePoint × PyJson.Obj P.Float)}
    (hline : Lines.IsLine lineFeed line) (h : jsonObject wire line code = .ok members) :
    PyJson.spelled (.dict members) ≤ line.length - 1 := by
  obtain ⟨text, htext, hloads⟩ := jsonObject_ok wire h
  obtain ⟨body, rfl, hbody⟩ := hline
  have hprinted := (PyJson.spelled_le_printed hloads).trans (printed_le_countP text)
  have hcount : (encodeUtf8 text).countP (· ≠ lineFeed) ≤ body.length := by
    rw [htext, List.countP_append]
    have hlast : [lineFeed].countP (· ≠ lineFeed) = 0 := rfl
    have hle := @List.countP_le_length _ (· ≠ lineFeed) body
    omega
  rw [List.length_append, List.length_singleton, Nat.add_sub_cancel]
  exact hprinted.trans hcount

end Lines

/-! ## Members -/

section Members

variable {P : CanonicalPlatform} {F : Type} {members : List (List CodePoint × PyJson.Obj F)}

/-- Every name of the keys is the key of the member that is found under it. -/
theorem item_mem {names : List String} (hkeys : hasKeys members names = true) {name : String}
    (hname : name ∈ names) :
    ∃ v, (name.toList.map ofChar, v) ∈ members ∧ item members name = v := by
  unfold hasKeys at hkeys
  rw [Bool.and_eq_true, List.all_eq_true, List.all_eq_true] at hkeys
  obtain ⟨m, hm, heq⟩ := List.any_eq_true.mp (hkeys.2 name hname)
  cases hlookup : members.lookup (name.toList.map ofChar) with
  | none =>
      have hne := List.lookup_eq_none_iff.mp hlookup m hm
      rw [of_decide_eq_true heq, bne_self_eq_false] at hne
      cases hne
  | some v =>
      obtain ⟨before, after, hsplit, -⟩ := List.lookup_eq_some_iff.mp hlookup
      refine ⟨v, ?_, ?_⟩
      · rw [hsplit]
        exact List.mem_append_right _ List.mem_cons_self
      · unfold item
        rw [hlookup]
        rfl

theorem spelled_ofText (text : String) :
    PyJson.spelled (ofText text : PyJson.Obj F) = text.toList.length + 2 := by
  rw [ofText, PyJson.spelled, List.length_map]

/-! ## Headers -/

/-- A header is written under exactly its keys. -/
theorem headerPayload_names (header : SegmentHeaderV1) :
    (headerPayload P.runtime header).map Prod.fst = headerKeys := rfl

theorem headerPayload_ne_nil (header : SegmentHeaderV1) : headerPayload P.runtime header ≠ [] :=
  List.cons_ne_nil _ _

theorem headerPayload_wire (header : SegmentHeaderV1) :
    ∀ m ∈ headerPayload P.runtime header, IsWireText m.1 := by
  have hkeys : ∀ name ∈ headerKeys, IsWireText name := by decide
  intro m hm
  exact hkeys m.1 (List.mem_map_of_mem hm)

theorem isWireText_exporters {header : SegmentHeaderV1} :
    ∀ id ∈ header.requiredExporters, IsWireText id := by
  intro id hid
  have hids := (fieldsValid_of_check header.valid).exporterIds
  exact (isWireText_of_matchesId (List.all_eq_true.mp hids id hid)).1

/-- The target of a header is a wire text of bounded length. -/
theorem target_of_header {header : SegmentHeaderV1} {target : String}
    (h : header.targetId = some target) : IsWireText target ∧ target.toList.length ≤ 256 := by
  have hfits := (fieldsValid_of_check header.valid).targetId
  rw [h] at hfits
  cases hscope : header.scope with
  | installation => rw [hscope] at hfits; cases hfits
  | target => rw [hscope] at hfits; exact isWireText_of_matchesId hfits

/-- The list of the exporters takes as much as the list it was read from. -/
theorem size_exporters {ids : List String} (h : ∀ id ∈ ids, IsWireText id) :
    size P.runtime (.list (ids.map .str)) =
      PyJson.spelled (.list (ids.map ofText) : PyJson.Obj F) := by
  rw [size_list, PyJson.spelled, PyJson.elementsSpelled_eq, List.map_map, List.map_map]
  congr 3
  refine List.map_congr_left fun id hid => ?_
  show size P.runtime (.str id) + 1 = PyJson.spelled (ofText id) + 1
  rw [size_str (h id hid), spelled_ofText]

/-- No value of a header takes more than the value it was read from. -/
theorem headerPayload_size {header : SegmentHeaderV1} {exporters : List (PyJson.Obj F)}
    (hread : HeaderRead members exporters header)
    (hexporters : item members "required_exporters" = .list exporters) :
    ∀ m ∈ headerPayload P.runtime header,
      size P.runtime m.2 ≤ PyJson.spelled (item members m.1) := by
  have hvalid := fieldsValid_of_check header.valid
  have htext : ∀ {name text : String}, IsWireText text → item members name = ofText text →
      size P.runtime (.str text) ≤ PyJson.spelled (item members name) := by
    intro name text hwire hitem
    rw [hitem, size_str hwire, spelled_ofText]
  have hint : ∀ {name : String} {n : Int}, item members name = .int n →
      size P.runtime (.int n) ≤ PyJson.spelled (item members name) := by
    intro name n hitem
    rw [hitem, size_int, PyJson.spelled]
  have hone : ∀ name : String, size P.runtime (.int 1) ≤ PyJson.spelled (item members name) :=
    fun name => PyJson.spelled_pos _
  have htarget : size P.runtime ((header.targetId.map .str).getD .none) ≤
      PyJson.spelled (item members "target_id") := by
    rw [hread.targetId]
    cases htargetId : header.targetId with
    | none => exact Nat.le_refl 4
    | some target =>
        show size P.runtime (.str target) ≤ PyJson.spelled (ofText target)
        rw [size_str (target_of_header htargetId).1, spelled_ofText]
  unfold headerPayload
  simp only [List.forall_mem_cons]
  refine ⟨htext (isWireText_of_matchesId hvalid.batchId).1 hread.batchId,
    htext (isWireText_of_matchesSha256 hvalid.configGeneration) hread.configGeneration,
    htext (isWireText_of_matchesSha256 hvalid.contentSha256) hread.contentSha256, hone _,
    htext (isWireText_privacyClass _) hread.privacyClass, hint hread.recordCount, ?_,
    hint hread.retentionDays, hone _, htext (isWireText_scope _) hread.scope, htarget,
    List.forall_mem_nil _⟩
  rw [hexporters, hread.exporters]
  exact (size_exporters isWireText_exporters).le

/-- The payload of every header can be encoded. -/
theorem wellFormed_header (header : SegmentHeaderV1) :
    WellFormed P.runtime (.dict (headerPayload P.runtime header)) := by
  have hvalid := fieldsValid_of_check header.valid
  have hnames := headerPayload_wire (P := P) header
  refine .dict _ (nodup_wireNames hnames (by rw [headerPayload_names]; decide)) ?_
  unfold headerPayload
  simp only [List.forall_mem_cons]
  refine ⟨.str _, .str _, .str _, .int _ (by decide), .str _,
    .int _ (inCanonicalRange_natCast hvalid.recordCount.2), ?_,
    .int _ (inCanonicalRange_natCast ?_), .int _ (by decide), .str _, ?_, List.forall_mem_nil _⟩
  · refine .list _ fun x hx => ?_
    obtain ⟨id, -, rfl⟩ := List.mem_map.mp hx
    exact .str _
  · have hdays := hvalid.retentionDays.2
    unfold maxRetentionDays at hdays
    unfold maxCanonicalInt
    omega
  · cases header.targetId with
    | none => exact .none
    | some target => exact .str _

theorem exporters_scalar (ids : List String) :
    ∀ x ∈ ids.map (@PyValue.str P.runtime.Float), x.isScalar = true := by
  intro x hx
  obtain ⟨id, -, rfl⟩ := List.mem_map.mp hx
  rfl

theorem target_scalar (target : Option String) :
    ((target.map (@PyValue.str P.runtime.Float)).getD .none).isScalar = true := by
  cases target <;> rfl

/-- A header has twelve nodes and one for each exporter. -/
theorem nodes_header (header : SegmentHeaderV1) :
    (PyValue.dict (headerPayload P.runtime header)).nodes =
      12 + header.requiredExporters.length := by
  have hids := (elementNodes_scalars (exporters_scalar (P := P) header.requiredExporters)).1
  have htarget := (PyValue.nodes_scalar (target_scalar (P := P) header.targetId)).1
  rw [List.length_map] at hids
  unfold headerPayload
  simp only [PyValue.nodes, PyValue.memberNodes, hids, htarget]
  omega

/-- A header is two containers high. -/
theorem height_header (header : SegmentHeaderV1) :
    (PyValue.dict (headerPayload P.runtime header)).height = 2 := by
  have hids := (elementNodes_scalars (exporters_scalar (P := P) header.requiredExporters)).2
  have htarget := (PyValue.nodes_scalar (target_scalar (P := P) header.targetId)).2
  unfold headerPayload
  simp only [PyValue.height, PyValue.memberHeight, hids, htarget]
  rfl

theorem size_digest {text : String} (h : matchesSha256 text = true) :
    size P.runtime (.str text) = 66 := by
  rw [size_str (isWireText_of_matchesSha256 h)]
  unfold matchesSha256 at h
  rw [Bool.and_eq_true, decide_eq_true_eq] at h
  rw [String.length_toList, h.1]

theorem size_target_le (header : SegmentHeaderV1) :
    size P.runtime ((header.targetId.map .str).getD .none) ≤ 258 := by
  cases htargetId : header.targetId with
  | none => exact (by decide : (4 : Nat) ≤ 258)
  | some target =>
      obtain ⟨hwire, hlength⟩ := target_of_header htargetId
      show size P.runtime (.str target) ≤ 258
      rw [size_str hwire]
      omega

/-- Each exporter takes at most 67 bytes. -/
theorem size_exporters_le (header : SegmentHeaderV1) :
    size P.runtime (.list (header.requiredExporters.map .str)) ≤
      2 + header.requiredExporters.length * 67 := by
  have hids := List.all_eq_true.mp (fieldsValid_of_check header.valid).exporterIds
  have hsum := List.sum_le_card_nsmul
    ((header.requiredExporters.map PyValue.str).map fun x => size P.runtime x + 1) 67 (by
      intro n hn
      rw [List.map_map] at hn
      obtain ⟨id, hid, rfl⟩ := List.mem_map.mp hn
      obtain ⟨hwire, hlength⟩ := isWireText_of_matchesId (hids id hid)
      show size P.runtime (.str id) + 1 ≤ 67
      rw [size_str hwire]
      omega)
  rw [List.length_map, List.length_map, Nat.nsmul_eq_mul] at hsum
  rw [size_list]
  omega

/-- A few exporters leave room for a header. -/
theorem size_header_le {header : SegmentHeaderV1} (hfew : header.requiredExporters.length ≤ 100) :
    size P.runtime (.dict (headerPayload P.runtime header)) ≤ maxHeaderLineBytes - 1 := by
  have hvalid := fieldsValid_of_check header.valid
  obtain ⟨hbatch, hbatchLength⟩ := isWireText_of_matchesId hvalid.batchId
  have hprivacy : size P.runtime (.str (Domain.privacyClassText header.privacyClass)) ≤ 12 := by
    rw [size_str (isWireText_privacyClass _)]
    cases header.privacyClass <;> decide
  have hscope : size P.runtime (.str (Domain.scopeText header.scope)) ≤ 14 := by
    rw [size_str (isWireText_scope _)]
    cases header.scope <;> decide
  have htarget := size_target_le (P := P) header
  have hexporters := size_exporters_le (P := P) header
  have hcount : size P.runtime (.int header.recordCount) ≤ 19 := by
    rw [size_int]
    exact length_intText hvalid.recordCount.2
  have hdays : size P.runtime (.int header.retentionDays) ≤ 19 := by
    rw [size_int]
    exact length_intText (hvalid.retentionDays.2.trans (by decide))
  have hone : size P.runtime (.int 1) = 1 := rfl
  have hkeys : headerKeys.map (fun name => name.toList.length) =
      [8, 17, 14, 13, 13, 12, 18, 14, 6, 5, 9] := by decide
  rw [size_dict (headerPayload_ne_nil header) (headerPayload_wire header)]
  unfold headerPayload
  unfold headerKeys at hkeys
  simp only [List.map_cons, List.map_nil, List.cons.injEq] at hkeys
  simp only [List.map_cons, List.sum_cons, List.map_nil, List.sum_nil, hkeys]
  rw [size_str hbatch, size_digest hvalid.configGeneration, size_digest hvalid.contentSha256,
    show ((frameVersion : Nat) : Int) = 1 from rfl, show ((schemaVersion : Nat) : Int) = 1 from rfl,
    hone]
  unfold maxHeaderLineBytes
  omega

/-- Each exporter takes a byte of the header. -/
theorem exporters_le_size (header : SegmentHeaderV1) :
    header.requiredExporters.length ≤ size P.runtime (.dict (headerPayload P.runtime header)) := by
  have hlist : header.requiredExporters.length ≤
      size P.runtime (.list (header.requiredExporters.map .str)) := by
    rw [size_list, List.map_map]
    have hsum := List.length_le_sum_of_one_le
      (header.requiredExporters.map fun id => size P.runtime (.str id) + 1) (by simp)
    rw [List.length_map] at hsum
    exact hsum.trans ((le_max_right 1 _).trans (Nat.le_add_left _ 1))
  rw [size_dict (headerPayload_ne_nil header) (headerPayload_wire header)]
  unfold headerPayload
  simp only [List.map_cons, List.sum_cons]
  omega

/-- A header within the size of a line has a line. -/
theorem spoolSegmentHeaderLine_of_size {header : SegmentHeaderV1}
    (hsize : size P.runtime (.dict (headerPayload P.runtime header)) ≤ maxHeaderLineBytes - 1) :
    ∃ line, spoolSegmentHeaderLine P.runtime header = .ok line := by
  refine ⟨_, line_of_wellFormed (wellFormed_header header) ?_ ?_ hsize⟩
  · have hids := (exporters_le_size (P := P) header).trans hsize
    rw [nodes_header]
    unfold maxHeaderLineBytes at hids
    unfold defaultMaxNodes
    omega
  · rw [height_header]
    decide

/-- **A header that was read from a line has a line**, which is no longer. -/
theorem spoolSegmentHeaderLine_of_read {header : SegmentHeaderV1} {exporters : List (PyJson.Obj F)}
    (hkeys : hasKeys members headerKeys = true) (hread : HeaderRead members exporters header)
    (hexporters : item members "required_exporters" = .list exporters)
    (hbound : PyJson.spelled (.dict members) ≤ maxHeaderLineBytes - 1) :
    ∃ line, spoolSegmentHeaderLine P.runtime header = .ok line := by
  apply spoolSegmentHeaderLine_of_size
  refine (size_dict_le (headerPayload_ne_nil header) (headerPayload_wire header) ?_ ?_
    (headerPayload_size hread hexporters)).trans hbound
  · rw [headerPayload_names]
    decide
  · intro m hm
    exact item_mem hkeys (List.mem_map_of_mem hm)

end Members

end Milhouse.Wire
