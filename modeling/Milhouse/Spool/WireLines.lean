import Milhouse.Lib.Spelling
import Milhouse.Spool.Wire

/-!
# Milhouse — how long the lines of a segment are

The encoder refuses a line past its bound. Neither line of the reader can be refused so: a record
leaves room for its frame, and a header is written in no more bytes than the line it was read from.

* **`spoolFrameLine_ok`** — every frame has a line;
* `size_dict_le` — an object whose values are no longer than those it was read from is no longer than
  the text it was read from.
-/

namespace Milhouse.Wire

open Json Text

/-! ## The size of a value -/

/-- How many bytes the canonical text of a value has. -/
def size (rt : CanonicalRuntime) (v : PyValue rt.Float) : Nat := (encodeUtf8 (canonicalText rt v)).length

/-- The characters of ids, of digests and of the names of classes. -/
def isWireChar (c : Char) : Bool := isAlnum c || c = '.' || c = '_' || c = '-'

def IsWireText (text : String) : Prop := ∀ c ∈ text.toList, isWireChar c = true

instance (text : String) : Decidable (IsWireText text) :=
  decidable_of_iff (text.toList.all isWireChar = true) List.all_eq_true

section Size

variable {rt : CanonicalRuntime}

/-- A wire character is ASCII and is written without an escape. -/
theorem wireChar_plain {c : Char} (h : isWireChar c = true) :
    (c.toNat < 128 ∧ c ≠ '\r') ∧ escape c = [c] := by
  have hall : ∀ n < 128, isWireChar (Char.ofNat n) = true →
      Char.ofNat n ≠ '\r' ∧ escape (Char.ofNat n) = [Char.ofNat n] := by decide
  have hsmall : c.toNat < 128 := by
    unfold isWireChar isAlnum at h
    simp only [Bool.or_eq_true, Bool.and_eq_true, decide_eq_true_eq] at h
    have hletters : ('Z').toNat = 90 ∧ ('z').toNat = 122 ∧ ('9').toNat = 57 := by decide
    rcases h with (((((⟨-, hle⟩ | ⟨-, hle⟩) | ⟨-, hle⟩) | rfl) | rfl) | rfl)
    · have : c.toNat ≤ 90 := hle
      omega
    · have : c.toNat ≤ 122 := hle
      omega
    · have : c.toNat ≤ 57 := hle
      omega
    · decide
    · decide
    · decide
  obtain ⟨hreturn, hescape⟩ := hall c.toNat hsmall (by rwa [Char.ofNat_toNat])
  rw [Char.ofNat_toNat] at hreturn hescape
  exact ⟨⟨hsmall, hreturn⟩, hescape⟩

theorem IsWireText.ascii {text : String} (h : IsWireText text) : IsAsciiText text.toList :=
  fun c hc => (wireChar_plain (h c hc)).1

/-- An ASCII text without escapes stands between its quotes as it is. -/
theorem length_quoteString_plain {text : String} (hascii : IsAsciiText text.toList)
    (hplain : IsPlain text.toList) :
    (encodeUtf8 (quoteString rt text)).length = text.toList.length + 2 := by
  rw [quoteString_ascii hascii, length_encodeUtf8_ascii, length_quote hplain]
  intro c hc
  rw [quote, flatMap_escape hplain, List.mem_append, List.mem_cons, List.mem_singleton] at hc
  rcases hc with (rfl | hc) | rfl
  · decide
  · exact (hascii c hc).1
  · decide

/-- So does a text of wire characters. -/
theorem length_quoteString {text : String} (h : IsWireText text) :
    (encodeUtf8 (quoteString rt text)).length = text.toList.length + 2 :=
  length_quoteString_plain h.ascii fun c hc => (wireChar_plain (h c hc)).2

/-- A wire text costs its characters and two quotes. -/
theorem size_str {text : String} (h : IsWireText text) :
    size rt (.str text) = text.toList.length + 2 := by
  unfold size
  rw [canonicalText]
  exact length_quoteString h

/-- The characters of numbers are ASCII. -/
theorem isNumeral_ascii {c : Char} (h : isNumeral c = true) : c.toNat < 128 := by
  unfold isNumeral at h
  simp only [Bool.or_eq_true, decide_eq_true_eq] at h
  rcases h with ((((hdigit | rfl) | rfl) | rfl) | rfl) | rfl
  · have hrange := Char.isDigit_iff_toNat.mp hdigit
    have hnine : ('9').toNat = 57 := rfl
    omega
  · decide
  · decide
  · decide
  · decide
  · decide

theorem size_int (n : Int) : size rt (.int n) = (intText n).length := by
  unfold size
  rw [canonicalText]
  exact length_encodeUtf8_ascii fun c hc => isNumeral_ascii (intText_numeral hc)

/-- A list takes a byte for each element and one more, besides its elements. -/
theorem size_list (xs : List (PyValue rt.Float)) :
    size rt (.list xs) = 1 + max 1 (xs.map fun x => size rt x + 1).sum := by
  have hopen : (encodeUtf8 ['[']).length = 1 := rfl
  have hclose : (encodeUtf8 [']']).length = 1 := rfl
  unfold size
  rw [canonicalText, elementTexts_eq]
  cases xs with
  | nil => rfl
  | cons x xs =>
      -- every element after the first has a comma before it
      have hrest : ∀ texts : List (List Char), (encodeUtf8 (texts.flatMap ([','] ++ ·))).length =
          (texts.map fun text => (encodeUtf8 text).length + 1).sum := by
        intro texts
        induction texts with
        | nil => rfl
        | cons text texts ih =>
            rw [List.flatMap_cons, encodeUtf8_append, encodeUtf8_append, List.length_append,
              List.length_append, ih, List.map_cons, List.sum_cons]
            have hcomma : (encodeUtf8 [',']).length = 1 := rfl
            omega
      rw [List.map_cons, bracketed, intercalate_cons_eq, List.cons_append, List.append_assoc,
        ← List.singleton_append, encodeUtf8_append, encodeUtf8_append, encodeUtf8_append,
        List.length_append, List.length_append, List.length_append, hrest, List.map_map,
        List.map_cons, List.sum_cons]
      show _ + (_ + ((xs.map fun x => (encodeUtf8 (canonicalText rt x)).length + 1).sum + _)) = _
      omega

/-- A member takes its quoted key, a colon and its value. -/
theorem memberSize_eq {m : String × PyValue rt.Float} (h : IsWireText m.1) :
    memberSize rt m = m.1.toList.length + 3 + size rt m.2 := by
  unfold memberSize memberText
  rw [normalizeString_ascii h.ascii, encodeUtf8_append, List.length_append, length_quoteString h,
    ← List.singleton_append, encodeUtf8_append, List.length_append]
  have hcolon : (encodeUtf8 [':']).length = 1 := rfl
  show _ + (_ + size rt m.2) = _
  omega

/-- An object with wire names costs its members, with three characters for each name and one between
them. -/
theorem size_dict {ms : List (String × PyValue rt.Float)} (hne : ms ≠ [])
    (hnames : ∀ m ∈ ms, IsWireText m.1) :
    size rt (.dict ms) = 1 + (ms.map fun m => m.1.toList.length + 3 + size rt m.2 + 1).sum := by
  unfold size
  rw [length_canonicalText_dict hne]
  congr 2
  refine List.map_congr_left fun m hm => ?_
  rw [memberSize_eq (hnames m hm)]
  rfl

/-- **An object whose values are no longer than those it was read from** is no longer than the
dictionary they come from. -/
theorem size_dict_le {F : Type} {ms : List (String × PyValue rt.Float)} (hne : ms ≠ [])
    (hnames : ∀ m ∈ ms, IsWireText m.1) (hnodup : (ms.map Prod.fst).Nodup)
    {members : List (List CodePoint × PyJson.Obj F)}
    (hpresent : ∀ m ∈ ms, ∃ v, (m.1.toList.map ofChar, v) ∈ members ∧ item members m.1 = v)
    (hsize : ∀ m ∈ ms, size rt m.2 ≤ PyJson.spelled (item members m.1)) :
    size rt (.dict ms) ≤ PyJson.spelled (.dict members) := by
  let read (m : String × PyValue rt.Float) : List CodePoint × PyJson.Obj F :=
    (m.1.toList.map ofChar, item members m.1)
  have hread : (ms.map read).Nodup := by
    have hchar : Function.Injective ofChar := by
      intro a b hab
      have ha := toChar?_ofChar a
      rw [hab, toChar?_ofChar] at ha
      exact (Option.some.inj ha).symm
    have hkeys : ((ms.map read).map Prod.fst).Nodup := by
      rw [List.map_map]
      have hinjective : Function.Injective fun name : String => name.toList.map ofChar := by
        intro a b hab
        exact String.toList_inj.mp (List.map_injective_iff.mpr hchar hab)
      have hmap := hnodup.map hinjective
      rwa [List.map_map] at hmap
    exact hkeys.of_map _
  have hmem : ms.map read ⊆ members := by
    intro x hx
    obtain ⟨m, hm, rfl⟩ := List.mem_map.mp hx
    obtain ⟨v, hv, hitem⟩ := hpresent m hm
    show (_, item members m.1) ∈ members
    rw [hitem]
    exact hv
  have hsum := PyJson.sum_items_le hread hmem
  have hle : (ms.map fun m => m.1.toList.length + 3 + size rt m.2 + 1).sum ≤
      ((ms.map read).map PyJson.memberSpelled).sum := by
    rw [List.map_map]
    refine List.sum_le_sum fun m hm => ?_
    have hm := hsize m hm
    show _ ≤ (m.1.toList.map ofChar).length + 3 + PyJson.spelled (item members m.1) + 1
    rw [List.length_map]
    omega
  rw [size_dict hne hnames, PyJson.spelled]
  omega

/-! ## Texts of ids -/

theorem isWireText_of_matchesId {rest : Nat} {text : String} (h : matchesId rest text = true) :
    IsWireText text ∧ text.toList.length ≤ rest + 1 := by
  unfold matchesId at h
  split at h
  · cases h
  · rename_i c cs heq
    simp only [Bool.and_eq_true, decide_eq_true_eq, List.all_eq_true] at h
    constructor
    · intro x hx
      rw [heq] at hx
      unfold isWireChar
      rcases List.mem_cons.mp hx with rfl | hx
      · rw [h.1.1, Bool.true_or, Bool.true_or, Bool.true_or]
      · exact h.2 x hx
    · rw [heq, List.length_cons]
      omega

theorem isWireText_of_matchesSha256 {text : String} (h : matchesSha256 text = true) :
    IsWireText text := by
  unfold matchesSha256 at h
  simp only [Bool.and_eq_true, List.all_eq_true] at h
  intro c hc
  have hdigit := h.2 c hc
  simp only [Bool.or_eq_true, Bool.and_eq_true, decide_eq_true_eq] at hdigit
  unfold isWireChar isAlnum
  simp only [Bool.or_eq_true, Bool.and_eq_true, decide_eq_true_eq]
  rcases hdigit with hdigit | hletter
  · exact Or.inl (Or.inl (Or.inl (Or.inr hdigit)))
  · exact Or.inl (Or.inl (Or.inl (Or.inl (Or.inr
      ⟨hletter.1, Char.le_trans hletter.2 (by decide)⟩))))

/-- A token is its start and base 32. -/
theorem isWireText_token {start text : String} (hstart : IsWireText start)
    (hbegins : start.toList <+: text.toList)
    (hbase : ∀ c ∈ text.toList.drop start.toList.length, isBase32 c = true) : IsWireText text := by
  intro c hc
  rw [← List.prefix_iff_eq_append.mp hbegins, List.mem_append] at hc
  rcases hc with hc | hc
  · exact hstart c hc
  · have hchar := hbase c hc
    unfold isBase32 at hchar
    unfold isWireChar isAlnum
    simp only [Bool.or_eq_true, Bool.and_eq_true, decide_eq_true_eq] at hchar ⊢
    rcases hchar with hletter | hdigit
    · exact Or.inl (Or.inl (Or.inl (Or.inl (Or.inr hletter))))
    · exact Or.inl (Or.inl (Or.inl (Or.inr ⟨Char.le_trans (by decide) hdigit.1,
        Char.le_trans hdigit.2 (by decide)⟩)))

/-- A record id is a wire text of fifty-five characters. -/
theorem isWireText_recordId {text : String} (h : matchesRecordId text = true) :
    IsWireText text ∧ text.toList.length = 55 := by
  unfold matchesRecordId at h
  simp only [Bool.and_eq_true, decide_eq_true_eq, List.all_eq_true] at h
  obtain ⟨⟨⟨hbegins, hlength⟩, hbase⟩, -⟩ := h
  exact ⟨isWireText_token (by decide) hbegins hbase, by rw [String.length_toList]; exact hlength⟩

/-- A dedupe key is a wire text of fifty-eight characters. -/
theorem isWireText_dedupeKey {text : String} (h : matchesDedupeKey text = true) :
    IsWireText text ∧ text.toList.length = 58 := by
  unfold matchesDedupeKey at h
  simp only [Bool.and_eq_true, decide_eq_true_eq, List.all_eq_true] at h
  obtain ⟨⟨⟨hbegins, hlength⟩, hbase⟩, -⟩ := h
  exact ⟨isWireText_token (by decide) hbegins hbase, by rw [String.length_toList]; exact hlength⟩

theorem isWireText_scope (scope : Scope) : IsWireText (Domain.scopeText scope) := by
  cases scope <;> decide

theorem isWireText_privacyClass (privacy : PrivacyClass) :
    IsWireText (Domain.privacyClassText privacy) := by
  cases privacy <;> decide

end Size

/-! ## Frames -/

section Frames

variable {P : CanonicalPlatform}

theorem inCanonicalRange_natCast {n : Nat} (h : n ≤ maxCanonicalInt) :
    inCanonicalRange (n : Int) = true := by
  unfold maxCanonicalInt at h
  unfold inCanonicalRange minCanonicalInt
  rw [Bool.and_eq_true, decide_eq_true_eq, decide_eq_true_eq]
  omega

/-- A value within the limits has a line. -/
theorem line_of_wellFormed {v : PyValue P.runtime.Float} {bound : Nat} (hwell : WellFormed P.runtime v)
    (hnodes : v.nodes ≤ defaultMaxNodes) (hheight : v.height ≤ defaultMaxDepth)
    (hsize : size P.runtime v ≤ bound - 1) :
    (canonicalJsonBytes P.runtime (lineLimits bound) v).map (· ++ [lineFeed]) =
      .ok (encodeUtf8 (canonicalText P.runtime v) ++ [lineFeed]) := by
  have hbytes : canonicalJsonBytes P.runtime (lineLimits bound) v = .ok (encodeUtf8 (canonicalText P.runtime v)) :=
    canonicalJsonBytes_eq_ok_iff.mpr ⟨⟨hwell, hnodes, hheight, hsize⟩, rfl⟩
  rw [hbytes]
  rfl

/-- Objects with the names of the wire keep their keys apart. -/
theorem nodup_wireNames {ms : List (String × PyValue P.runtime.Float)}
    (hnames : ∀ m ∈ ms, IsWireText m.1) (hnodup : (ms.map Prod.fst).Nodup) :
    (ms.map fun m => normalizeString P.runtime m.1).Nodup := by
  rw [List.map_congr_left fun m hm => normalizeString_ascii (hnames m hm).ascii]
  exact hnodup

/-- A frame is written under exactly its keys. -/
theorem framePayload_names (frame : SpoolFrameV1 P) :
    (framePayload frame).map Prod.fst = frameKeys := rfl

theorem framePayload_wire (frame : SpoolFrameV1 P) :
    ∀ m ∈ framePayload frame, IsWireText m.1 := by
  have hkeys : ∀ name ∈ frameKeys, IsWireText name := by decide
  intro m hm
  exact hkeys m.1 (List.mem_map_of_mem hm)

/-- **Every frame has a line.** A record within its own bound leaves room for the frame. -/
theorem spoolFrameLine_ok (frame : SpoolFrameV1 P) : ∃ line, spoolFrameLine frame = .ok line := by
  obtain ⟨bytes, hbytes⟩ := frame.record.canonical
  obtain ⟨⟨hwell, -, -, hrecord⟩, -⟩ := canonicalJsonBytes_eq_ok_iff.mp hbytes
  obtain ⟨hbatch, hbatchLength⟩ := isWireText_of_matchesId frame.validBatchId
  obtain ⟨hid, hidLength⟩ := isWireText_recordId frame.record.recordId_valid
  have hnames := framePayload_wire frame
  have hwellFormed : WellFormed P.runtime (.dict (framePayload frame)) := by
    refine .dict _ (nodup_wireNames hnames (by rw [framePayload_names]; decide)) ?_
    unfold framePayload
    simp only [List.forall_mem_cons]
    exact ⟨.str _, .int _ (by decide), hwell, .str _,
      .int _ (inCanonicalRange_natCast frame.validSequence.2), List.forall_mem_nil _⟩
  -- The record is bounded by its shape, and the frame adds four scalars and the object around
  -- them.
  have hnodes : (PyValue.dict (framePayload frame)).nodes ≤ defaultMaxNodes := by
    have hdump : frame.record.dump.nodes ≤ 1000 :=
      frame.record.shaped.nodes_le.trans recordShape_bounds.1
    have hsum : (PyValue.dict (framePayload frame)).nodes =
        1 + (1 + (1 + (frame.record.dump.nodes + (1 + (1 + 0))))) := rfl
    unfold defaultMaxNodes
    omega
  have hheight : (PyValue.dict (framePayload frame)).height ≤ defaultMaxDepth := by
    have hdump : frame.record.dump.height ≤ 8 :=
      frame.record.shaped.height_le.trans recordShape_bounds.2
    have hmax : (PyValue.dict (framePayload frame)).height =
        1 + max 0 (max 0 (max frame.record.dump.height (max 0 (max 0 0)))) := rfl
    unfold defaultMaxDepth
    omega
  -- Likewise the line is the record and a bounded number of characters around it.
  have hsize : size P.runtime (.dict (framePayload frame)) ≤ maxFrameLineBytes - 1 := by
    have hdump : size P.runtime frame.record.dump ≤ 262144 := hrecord
    have hversion : size P.runtime (.int frameVersion) = 1 := rfl
    have hsequence := length_intText frame.validSequence.2
    have hne : framePayload frame ≠ [] := List.cons_ne_nil _ _
    rw [size_dict hne hnames]
    unfold framePayload
    simp only [List.map_cons, List.map_nil, List.sum_cons, List.sum_nil]
    rw [size_str hbatch, size_str hid, hversion, size_int, hidLength]
    have hkeys : "batch_id".toList.length = 8 ∧ "frame_version".toList.length = 13 ∧
        "record".toList.length = 6 ∧ "record_id".toList.length = 9 ∧
        "sequence".toList.length = 8 := by decide
    obtain ⟨h₁, h₂, h₃, h₄, h₅⟩ := hkeys
    unfold maxFrameLineBytes
    omega
  exact ⟨_, line_of_wellFormed hwellFormed hnodes hheight hsize⟩

end Frames

end Milhouse.Wire
