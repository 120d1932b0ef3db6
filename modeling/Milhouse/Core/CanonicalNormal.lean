import Milhouse.Core.CanonicalFloat
import Milhouse.Lib.Utf8

/-!
# Milhouse — canonical JSON is a normal form

`normal` is a value after normalization: strings with line feeds and in NFC, integral floats as
integers, timestamps as their text, and the members of an object under their normalized keys in
order. What the encoder writes is the text of the normal form, and no two normal forms share a text.

* **`canonicalText_eq_text`** — the canonical text is the text of the normal form;
* **`canonicalJsonBytes_eq_iff`** — so two values have the same bytes exactly when their normal forms
  are equal;
* **`keysIncreasing_normal`** — the keys of every object increase in the order of their UTF-8 bytes;
* **`canonicalJsonBytes_loads`** — the bytes read back and encoded again are the same.
-/

namespace Milhouse

open Json

/-! ## The normal form -/

section Normal

variable (P : CanonicalPlatform)

/-- A float as an integer, or as the fraction it is; one that is not finite is refused. -/
def normalFloat (x : P.Float) : Value P.fractions :=
  match P.integral x with
  | some n => .int n
  | none => if h : P.isFinite x = true ∧ P.integral x = none then .fraction ⟨x, h⟩ else .null

mutual

/-- A value after normalization. -/
def normal : PyValue P.runtime.Float → Value P.fractions
  | .none => .null
  | .bool flag => .bool flag
  | .int value => .int value
  | .float value => normalFloat P value
  | .str text => .str (normalizeString P.runtime text).toList
  | .datetime stamp => .str (timestampText stamp)
  | .list members => .arr (normalElements members)
  | .dict members => .obj (((normalMembers members).insertionSort fun a b => keyLe a b).map
      fun m => (m.1.toList, m.2))

def normalElements : List (PyValue P.runtime.Float) → List (Value P.fractions)
  | [] => []
  | value :: rest => normal value :: normalElements rest

def normalMembers : List (String × PyValue P.runtime.Float) → List (String × Value P.fractions)
  | [] => []
  | (key, value) :: rest => (normalizeString P.runtime key, normal value) :: normalMembers rest

end

variable {P}

theorem normal_list (xs : List (PyValue P.runtime.Float)) :
    normal P (.list xs) = .arr (xs.map (normal P)) := by
  have helements : normalElements P xs = xs.map (normal P) := by
    induction xs with
    | nil => rfl
    | cons x xs ih => rw [normalElements, ih, List.map_cons]
  rw [normal, helements]

theorem normalMembers_eq (ms : List (String × PyValue P.runtime.Float)) :
    normalMembers P ms = ms.map fun m => (normalizeString P.runtime m.1, normal P m.2) := by
  induction ms with
  | nil => rfl
  | cons m ms ih => rw [normalMembers, ih, List.map_cons]

/-- The normal form of an object has its members in the order of their normalized keys. -/
theorem normal_dict (ms : List (String × PyValue P.runtime.Float)) :
    normal P (.dict ms) =
      .obj ((sortedMembers P.runtime ms).map fun m => (m.1.toList, normal P m.2)) := by
  rw [normal, normalMembers_eq, map_sortedMembers (normal P) fun m => (m.1.toList, m.2)]

/-! ## Normalization a second time -/

/-- **Normalized text is normalized**: its keys can be quoted as they are. -/
theorem normalizeString_normalizeString (text : String) :
    normalizeString P.runtime (normalizeString P.runtime text) = normalizeString P.runtime text := by
  have hreturn : '\r' ∉ (normalizeString P.runtime text).toList := by
    apply P.nfc_return
    rw [String.toList_ofList]
    exact notMem_normalizeLines _
  have hlines : String.ofList (normalizeLines (normalizeString P.runtime text).toList) =
      normalizeString P.runtime text := by
    rw [normalizeLines_of_notMem hreturn, String.ofList_toList]
  show P.nfc (String.ofList (normalizeLines (normalizeString P.runtime text).toList)) = _
  rw [hlines]
  exact P.nfc_nfc _

/-- The members of an object in order have normalized keys. -/
theorem mem_sortedMembers {ms : List (String × PyValue P.runtime.Float)}
    {m : String × PyValue P.runtime.Float} (h : m ∈ sortedMembers P.runtime ms) :
    ∃ m' ∈ ms, m = (normalizeString P.runtime m'.1, m'.2) := by
  obtain ⟨m', hm', heq⟩ := List.mem_map.mp ((sortedMembers_perm ms).mem_iff.mp h)
  exact ⟨m', hm', heq.symm⟩

/-! ## Its text -/

theorem isAsciiText_timestampText (stamp : Stamp) : IsAsciiText (timestampText stamp) := by
  have hmark : ∀ c ∈ ['-', 'T', ':', '.', 'Z'], c.toNat < 128 ∧ c ≠ '\r' :=
    List.all_iff_forall_prop.mp (by decide)
  intro c hc
  rcases mem_timestampText hc with hdigit | hc
  · have hrange : 48 ≤ c.toNat ∧ c.toNat ≤ 57 := Char.isDigit_iff_toNat.mp hdigit
    refine ⟨by omega, ?_⟩
    rintro rfl
    exact absurd hdigit (by decide)
  · exact hmark c hc

/-- The text of a stamp is ASCII, so composition leaves it alone. -/
theorem normalizeString_timestampText (stamp : Stamp) :
    normalizeString P.runtime (String.ofList (timestampText stamp)) =
      String.ofList (timestampText stamp) := by
  apply normalizeString_ascii
  rw [String.toList_ofList]
  exact isAsciiText_timestampText stamp

/-- An integral float is normalized to its integer. -/
theorem normalFloat_of_integral {x : P.Float} {n : Int} (h : P.integral x = some n) :
    normalFloat P x = .int n := by
  unfold normalFloat
  split
  · rename_i m hm
    rw [Option.some.inj (hm.symm.trans h)]
  · rename_i hnone
    exact absurd (hnone.symm.trans h) (by simp)

theorem normalFloat_of_fraction {x : P.Float} (h : P.isFinite x = true ∧ P.integral x = none) :
    normalFloat P x = .fraction ⟨x, h⟩ := by
  unfold normalFloat
  split
  · rename_i m hm
    exact absurd (hm.symm.trans h.2) (by simp)
  · exact dif_pos h

/-- The normal form of a finite float is written as the shortest decimal or as its integer. -/
theorem text_normalFloat {x : P.Float} (h : P.isFinite x = true) :
    (normalFloat P x).text =
      match P.integral x with
      | some n => intText n
      | none => decimalText (P.shortest x) := by
  split
  · rename_i n hn
    rw [normalFloat_of_integral hn, Value.text]
  · rename_i hnone
    rw [normalFloat_of_fraction ⟨h, hnone⟩]
    rfl

/-- **The canonical text is the text of the normal form.** -/
theorem canonicalText_eq_text {v : PyValue P.runtime.Float} (h : WellFormed P.runtime v) :
    canonicalText P.runtime v = (normal P v).text := by
  induction h with
  | none => rfl
  | bool flag => cases flag <;> rfl
  | int value hrange => rfl
  | float value hfinite hrange =>
      have hfinite : P.isFinite value = true := hfinite
      rw [canonicalText, normal]
      exact (text_normalFloat hfinite).symm
  | str text => rfl
  | datetime stamp =>
      rw [canonicalText, quoteString, normalizeString_timestampText, String.toList_ofList]
      rfl
  | list members h ih =>
      rw [canonicalText, elementTexts_eq, normal_list, text_arr, List.map_map,
        List.map_congr_left ih]
      rfl
  | dict members hkeys h ih =>
      have hmember : ∀ m ∈ sortedMembers P.runtime members,
          Milhouse.memberText P.runtime m.1 (canonicalText P.runtime m.2) =
            Json.memberText (m.1.toList, normal P m.2) := by
        intro m hm
        obtain ⟨m', hm', rfl⟩ := mem_sortedMembers hm
        rw [Milhouse.memberText, quoteString, normalizeString_normalizeString, ih m' hm']
        rfl
      rw [canonicalText_dict, normal_dict, text_obj, List.map_map, List.map_congr_left hmember]
      rfl

/-- UTF-8 distinguishes texts. -/
theorem encodeUtf8_injective {text text' : List Char} (h : encodeUtf8 text = encodeUtf8 text') :
    text = text' := Utf8.encode_injective h

/-- What the encoder accepts is well formed, and is written as the text of its normal form. -/
theorem canonicalJsonBytes_ok {limits : CanonicalLimits} {v : PyValue P.runtime.Float}
    {bytes : List UInt8} (h : canonicalJsonBytes P.runtime limits v = .ok bytes) :
    WellFormed P.runtime v ∧ bytes = encodeUtf8 (normal P v).text := by
  obtain ⟨⟨hwell, -⟩, hbytes⟩ := canonicalJsonBytes_eq_ok_iff.mp h
  rw [← canonicalText_eq_text hwell]
  exact ⟨hwell, hbytes⟩

/-- **Equal bytes are equal normal forms**, whatever the limits. -/
theorem canonicalJsonBytes_eq_iff {limits limits' : CanonicalLimits}
    {v w : PyValue P.runtime.Float} {bytes bytes' : List UInt8}
    (hv : canonicalJsonBytes P.runtime limits v = .ok bytes)
    (hw : canonicalJsonBytes P.runtime limits' w = .ok bytes') :
    bytes = bytes' ↔ normal P v = normal P w := by
  obtain ⟨-, rfl⟩ := canonicalJsonBytes_ok hv
  obtain ⟨-, rfl⟩ := canonicalJsonBytes_ok hw
  constructor
  · intro h
    have htext := encodeUtf8_injective h
    have hload := load_text (normal P v) [] nofun
    have hload' := load_text (normal P w) [] nofun
    rw [htext] at hload
    exact Option.some.inj (hload.symm.trans hload')
  · intro h
    rw [h]

/-! ## The order of the keys -/

mutual

/-- The keys of every object increase in the order of their UTF-8 bytes. -/
def KeysIncreasing {F : Fractions} : Value F → Prop
  | .arr elements => ElementsIncreasing elements
  | .obj members => (members.map Prod.fst).Pairwise (fun a b => encodeUtf8 a < encodeUtf8 b) ∧
      MembersIncreasing members
  | _ => True

def ElementsIncreasing {F : Fractions} : List (Value F) → Prop
  | [] => True
  | value :: rest => KeysIncreasing value ∧ ElementsIncreasing rest

def MembersIncreasing {F : Fractions} : List (List Char × Value F) → Prop
  | [] => True
  | (_, value) :: rest => KeysIncreasing value ∧ MembersIncreasing rest

end

/-- A list is in order if each of its elements is. -/
theorem elementsIncreasing_iff {F : Fractions} (elements : List (Value F)) :
    ElementsIncreasing elements ↔ ∀ x ∈ elements, KeysIncreasing x := by
  induction elements with
  | nil => simp [ElementsIncreasing]
  | cons x rest ih => simp [ElementsIncreasing, ih]

theorem membersIncreasing_iff {F : Fractions} (members : List (List Char × Value F)) :
    MembersIncreasing members ↔ ∀ m ∈ members, KeysIncreasing m.2 := by
  induction members with
  | nil => simp [MembersIncreasing]
  | cons m rest ih => simp [MembersIncreasing, ih]

/-- Distinct normalized keys come in strictly increasing order. -/
theorem sortedMembers_increasing {ms : List (String × PyValue P.runtime.Float)}
    (h : (ms.map fun m => normalizeString P.runtime m.1).Nodup) :
    ((sortedMembers P.runtime ms).map Prod.fst).Pairwise (· < ·) := by
  have htotal : Std.Total fun a b : String × PyValue P.runtime.Float => keyLe a b = true :=
    ⟨fun a b => (le_total a.1 b.1).imp (fun h => decide_eq_true h) fun h => decide_eq_true h⟩
  have htrans : IsTrans (String × PyValue P.runtime.Float) fun a b => keyLe a b = true :=
    ⟨fun _ _ _ h h' => decide_eq_true ((of_decide_eq_true h).trans (of_decide_eq_true h'))⟩
  have hsorted : (sortedMembers P.runtime ms).Pairwise fun a b => keyLe a b = true :=
    List.pairwise_insertionSort _ _
  have hnodup : ((sortedMembers P.runtime ms).map Prod.fst).Nodup := by
    have hperm := (sortedMembers_perm ms).map Prod.fst
    rw [List.map_map] at hperm
    exact hperm.nodup_iff.mpr h
  refine ((List.pairwise_map.mpr (hsorted.imp fun h => of_decide_eq_true h)).and hnodup).imp ?_
  exact fun h => lt_of_le_of_ne h.1 h.2

/-- **Objects are finite maps**: their normal forms are equal exactly when they have the same members
after normalization, in whatever order. -/
theorem normal_dict_eq_iff {ms ns : List (String × PyValue P.runtime.Float)}
    (hms : (ms.map fun m => normalizeString P.runtime m.1).Nodup)
    (hns : (ns.map fun m => normalizeString P.runtime m.1).Nodup) :
    normal P (.dict ms) = normal P (.dict ns) ↔
      (ms.map fun m => (normalizeString P.runtime m.1, normal P m.2)).Perm
        (ns.map fun m => (normalizeString P.runtime m.1, normal P m.2)) := by
  have hperm : ∀ xs : List (String × PyValue P.runtime.Float),
      ((sortedMembers P.runtime xs).map fun m => (m.1, normal P m.2)).Perm
        (xs.map fun m => (normalizeString P.runtime m.1, normal P m.2)) := by
    intro xs
    have h := (sortedMembers_perm xs).map fun m : String × PyValue P.runtime.Float =>
      (m.1, normal P m.2)
    rwa [List.map_map] at h
  have hkeys : ∀ xs : List (String × PyValue P.runtime.Float),
      (xs.map fun m => normalizeString P.runtime m.1).Nodup →
        ((sortedMembers P.runtime xs).map fun m => (m.1, normal P m.2)).Pairwise
          fun a b => a.1 < b.1 := by
    intro xs hxs
    exact List.pairwise_map.mpr (List.pairwise_map.mp (sortedMembers_increasing hxs))
  have hobj : ∀ xs : List (String × PyValue P.runtime.Float), normal P (.dict xs) =
      .obj (((sortedMembers P.runtime xs).map fun m => (m.1, normal P m.2)).map
        fun m => (m.1.toList, m.2)) := by
    intro xs
    rw [normal_dict, List.map_map]
    rfl
  have hinjective : Function.Injective fun m : String × Value P.fractions => (m.1.toList, m.2) := by
    intro a b hab
    obtain ⟨hkey, hvalue⟩ := Prod.mk.inj hab
    exact Prod.ext (String.toList_inj.mp hkey) hvalue
  rw [hobj, hobj, Value.obj.injEq]
  constructor
  · intro h
    exact (hperm ms).symm.trans (List.map_injective_iff.mpr hinjective h ▸ hperm ns)
  · intro h
    -- two increasing lists of the same members are equal
    congr 1
    refine List.Perm.eq_of_pairwise (fun a b _ _ hab hba => ?_) (hkeys ms hms) (hkeys ns hns)
      ((hperm ms).trans (h.trans (hperm ns).symm))
    exact absurd (hab.trans hba) (lt_irrefl _)

/-- **The keys of every object increase** in the order of their bytes. -/
theorem keysIncreasing_normal {v : PyValue P.runtime.Float} (h : WellFormed P.runtime v) :
    KeysIncreasing (normal P v) := by
  induction h with
  | none => trivial
  | bool flag => trivial
  | int value hrange => trivial
  | float value hfinite hrange =>
      show KeysIncreasing (normalFloat P value)
      unfold normalFloat
      split
      · trivial
      · split <;> trivial
  | str text => trivial
  | datetime stamp => trivial
  | list members h ih =>
      rw [normal_list]
      refine (elementsIncreasing_iff _).mpr fun x hx => ?_
      obtain ⟨y, hy, rfl⟩ := List.mem_map.mp hx
      exact ih y hy
  | dict members hkeys h ih =>
      rw [normal_dict]
      refine ⟨?_, (membersIncreasing_iff _).mpr fun m hm => ?_⟩
      · rw [List.map_map, List.pairwise_map]
        refine (List.pairwise_map.mp (sortedMembers_increasing hkeys)).imp fun hlt => ?_
        exact Utf8.encode_lt_encode (String.lt_iff_toList_lt.mp hlt)
      · obtain ⟨m', hm', rfl⟩ := List.mem_map.mp hm
        obtain ⟨m'', hm'', rfl⟩ := mem_sortedMembers hm'
        exact ih m'' hm''

/-! ## Reading the bytes back -/

section Reread

variable (P : CanonicalPlatform)

mutual

/-- An object that `json.loads` gave, as a value of the encoder; a lone surrogate has none. -/
def ofObj : PyJson.Obj P.floats.Float → Option (PyValue P.runtime.Float)
  | .none => some .none
  | .bool flag => some (.bool flag)
  | .int value => some (.int value)
  | .float value => some (.float value)
  | .str text => (Text.scalars text).map fun chars => .str (String.ofList chars)
  | .list members => (ofObjs members).map .list
  | .dict members => (ofObjMembers members).map .dict

def ofObjs : List (PyJson.Obj P.floats.Float) → Option (List (PyValue P.runtime.Float))
  | [] => some []
  | value :: rest => (ofObj value).bind fun v => (ofObjs rest).map fun vs => v :: vs

def ofObjMembers : List (List Text.CodePoint × PyJson.Obj P.floats.Float) →
    Option (List (String × PyValue P.runtime.Float))
  | [] => some []
  | (key, value) :: rest => (Text.scalars key).bind fun chars =>
      (ofObj value).bind fun v => (ofObjMembers rest).map fun vs => (String.ofList chars, v) :: vs

end

mutual

/-- A normal form as a value of the encoder. -/
def reread : Value P.fractions → PyValue P.runtime.Float
  | .null => .none
  | .bool flag => .bool flag
  | .int value => .int value
  | .fraction x => .float x.1
  | .str text => .str (String.ofList text)
  | .arr elements => .list (rereadElements elements)
  | .obj members => .dict (rereadMembers members)

def rereadElements : List (Value P.fractions) → List (PyValue P.runtime.Float)
  | [] => []
  | value :: rest => reread value :: rereadElements rest

def rereadMembers : List (List Char × Value P.fractions) → List (String × PyValue P.runtime.Float)
  | [] => []
  | (key, value) :: rest => (String.ofList key, reread value) :: rereadMembers rest

end

end Reread

/-- A list is read again element by element. -/
theorem reread_arr (elements : List (Value P.fractions)) :
    reread P (.arr elements) = .list (elements.map (reread P)) := by
  have helements : rereadElements P elements = elements.map (reread P) := by
    induction elements with
    | nil => rfl
    | cons x xs ih => rw [rereadElements, ih, List.map_cons]
  rw [reread, helements]

/-- An object is read again member by member. -/
theorem reread_obj (members : List (List Char × Value P.fractions)) :
    reread P (.obj members) = .dict (members.map fun m => (String.ofList m.1, reread P m.2)) := by
  have hmembers : rereadMembers P members =
      members.map fun m => (String.ofList m.1, reread P m.2) := by
    induction members with
    | nil => rfl
    | cons m ms ih => rw [rereadMembers, ih, List.map_cons]
  rw [reread, hmembers]

theorem scalars_map_ofChar (text : List Char) : Text.scalars (text.map Text.ofChar) = some text :=
  Text.scalars_eq_some_iff.mpr rfl

/-- Reading an object keeps its keys and their order. -/
theorem ofMembers_keys (members : List (List Char × Value P.fractions)) :
    (PyJson.ofMembers P.numerals members).map Prod.fst =
      (members.map Prod.fst).map (List.map Text.ofChar) := by
  induction members with
  | nil => rfl
  | cons m ms ih => rw [PyJson.ofMembers, List.map_cons, List.map_cons, List.map_cons, ih]

/-- Increasing keys are distinct, also as code points. -/
theorem nodup_of_increasing {members : List (List Char × Value P.fractions)}
    (h : (members.map Prod.fst).Pairwise fun a b => encodeUtf8 a < encodeUtf8 b) :
    ((PyJson.ofMembers P.numerals members).map Prod.fst).Nodup := by
  have hinjective : Function.Injective (List.map Text.ofChar) := by
    intro a b hab
    have hscalars := scalars_map_ofChar a
    rw [hab, scalars_map_ofChar] at hscalars
    exact (Option.some.inj hscalars).symm
  rw [ofMembers_keys]
  refine List.Nodup.map hinjective (h.imp ?_)
  rintro a b hlt rfl
  exact List.lt_irrefl _ hlt

mutual

/-- **A value with increasing keys is read back.** -/
theorem ofObj_ofValue : ∀ n : Value P.fractions, KeysIncreasing n →
    ofObj P (PyJson.ofValue P.numerals n) = some (reread P n)
  | .null, _ => rfl
  | .bool _, _ => rfl
  | .int _, _ => rfl
  | .fraction _, _ => rfl
  | .str text, _ => by
      rw [PyJson.ofValue, ofObj, scalars_map_ofChar]
      rfl
  | .arr elements, h => by
      rw [PyJson.ofValue, ofObj, ofObjs_ofElements elements h]
      rfl
  | .obj members, h => by
      rw [PyJson.ofValue, PyJson.toDict_of_nodup (nodup_of_increasing h.1), ofObj,
        ofObjMembers_ofMembers members h.2]
      rfl

theorem ofObjs_ofElements : ∀ elements : List (Value P.fractions), ElementsIncreasing elements →
    ofObjs P (PyJson.ofElements P.numerals elements) = some (rereadElements P elements)
  | [], _ => rfl
  | value :: rest, h => by
      rw [PyJson.ofElements, ofObjs, ofObj_ofValue value h.1, ofObjs_ofElements rest h.2]
      rfl

theorem ofObjMembers_ofMembers : ∀ members : List (List Char × Value P.fractions),
    MembersIncreasing members →
    ofObjMembers P (PyJson.ofMembers P.numerals members) = some (rereadMembers P members)
  | [], _ => rfl
  | (key, value) :: rest, h => by
      rw [PyJson.ofMembers, ofObjMembers, scalars_map_ofChar, ofObj_ofValue value h.1,
        ofObjMembers_ofMembers rest h.2]
      rfl

end

/-! ### What was read back -/

/-- The members of what was read back are in order already. -/
theorem sortedMembers_reread {ms : List (String × PyValue P.runtime.Float)}
    (h : (ms.map fun m => normalizeString P.runtime m.1).Nodup)
    (f : PyValue P.runtime.Float → PyValue P.runtime.Float) :
    sortedMembers P.runtime ((sortedMembers P.runtime ms).map fun m => (m.1, f m.2)) =
      (sortedMembers P.runtime ms).map fun m => (m.1, f m.2) := by
  have hsame : ((sortedMembers P.runtime ms).map fun m => (m.1, f m.2)).map
      (fun m => (normalizeString P.runtime m.1, m.2)) =
        (sortedMembers P.runtime ms).map fun m => (m.1, f m.2) := by
    rw [List.map_map]
    refine List.map_congr_left fun m hm => ?_
    obtain ⟨m', -, rfl⟩ := mem_sortedMembers hm
    exact Prod.ext (normalizeString_normalizeString _) rfl
  unfold sortedMembers at hsame ⊢
  rw [hsame]
  refine List.Pairwise.insertionSort_eq ?_
  have hincreasing := List.pairwise_map.mp (sortedMembers_increasing h)
  rw [List.pairwise_map]
  exact hincreasing.imp fun hlt => decide_eq_true (le_of_lt hlt)

/-- The normal form of an object is read again as its sorted members. -/
theorem reread_normal_dict (ms : List (String × PyValue P.runtime.Float)) :
    reread P (normal P (.dict ms)) =
      .dict ((sortedMembers P.runtime ms).map fun m => (m.1, reread P (normal P m.2))) := by
  rw [normal_dict, reread_obj, List.map_map]
  congr 1
  refine List.map_congr_left fun m _ => ?_
  exact Prod.ext String.ofList_toList rfl

theorem reread_normal_list (xs : List (PyValue P.runtime.Float)) :
    reread P (normal P (.list xs)) = .list (xs.map fun x => reread P (normal P x)) := by
  rw [normal_list, reread_arr, List.map_map]
  rfl

/-- **What was read back** is well formed and has the normal form of what was written. -/
theorem normal_reread {v : PyValue P.runtime.Float} (h : WellFormed P.runtime v) :
    WellFormed P.runtime (reread P (normal P v)) ∧ normal P (reread P (normal P v)) = normal P v := by
  induction h with
  | none => exact ⟨.none, rfl⟩
  | bool flag => exact ⟨.bool flag, rfl⟩
  | int value hrange => exact ⟨.int value hrange, rfl⟩
  -- An integral float is written as an integer and read back as one, so its form changes once
  -- only.
  | float value hfinite hrange =>
      show WellFormed P.runtime (reread P (normalFloat P value)) ∧
        normal P (reread P (normalFloat P value)) = normalFloat P value
      cases hintegral : P.integral value with
      | some n =>
          rw [normalFloat_of_integral hintegral]
          exact ⟨.int n (hrange n hintegral), rfl⟩
      | none =>
          rw [normalFloat_of_fraction ⟨hfinite, hintegral⟩]
          exact ⟨.float value hfinite hrange, normalFloat_of_fraction ⟨hfinite, hintegral⟩⟩
  | str text =>
      refine ⟨.str _, ?_⟩
      rw [normal, reread, String.ofList_toList, normal, normalizeString_normalizeString]
  -- A time is read back as its text.
  | datetime stamp =>
      refine ⟨.str _, ?_⟩
      rw [normal, reread, normal, normalizeString_timestampText, String.toList_ofList]
  | list members h ih =>
      rw [reread_normal_list]
      constructor
      · refine .list _ fun x hx => ?_
        obtain ⟨y, hy, rfl⟩ := List.mem_map.mp hx
        exact (ih y hy).1
      · rw [normal_list, normal_list, List.map_map]
        congr 1
        exact List.map_congr_left fun x hx => (ih x hx).2
  | dict members hkeys h ih =>
      rw [reread_normal_dict]
      constructor
      · refine .dict _ ?_ fun m hm => ?_
        -- The keys were normalized when they were written, so they are distinct when they are
        -- read.
        · have hsame : (((sortedMembers P.runtime members).map fun m =>
              (m.1, reread P (normal P m.2))).map fun m => normalizeString P.runtime m.1) =
                (sortedMembers P.runtime members).map Prod.fst := by
            rw [List.map_map]
            refine List.map_congr_left fun m hm => ?_
            obtain ⟨m', -, rfl⟩ := mem_sortedMembers hm
            exact normalizeString_normalizeString _
          rw [hsame]
          exact (sortedMembers_increasing hkeys).imp fun hlt => ne_of_lt hlt
        · obtain ⟨m', hm', rfl⟩ := List.mem_map.mp hm
          obtain ⟨m'', hm'', rfl⟩ := mem_sortedMembers hm'
          exact (ih m'' hm'').1
      · rw [normal_dict, sortedMembers_reread hkeys fun x => reread P (normal P x), normal_dict,
          List.map_map]
        congr 1
        refine List.map_congr_left fun m hm => ?_
        obtain ⟨m', hm', rfl⟩ := mem_sortedMembers hm
        exact Prod.ext rfl (ih m' hm').2

/-- What was read back is as large and at most as deep as what was written. -/
theorem size_reread {v : PyValue P.runtime.Float} (h : WellFormed P.runtime v) :
    (reread P (normal P v)).nodes = v.nodes ∧ (reread P (normal P v)).height ≤ v.height := by
  induction h with
  | none => exact ⟨rfl, le_refl _⟩
  | bool flag => exact ⟨rfl, le_refl _⟩
  | int value hrange => exact ⟨rfl, le_refl _⟩
  | float value hfinite hrange =>
      show (reread P (normalFloat P value)).nodes = 1 ∧ (reread P (normalFloat P value)).height ≤ 0
      cases hintegral : P.integral value with
      | some n =>
          rw [normalFloat_of_integral hintegral]
          exact ⟨rfl, le_refl _⟩
      | none =>
          rw [normalFloat_of_fraction ⟨hfinite, hintegral⟩]
          exact ⟨rfl, le_refl _⟩
  | str text => exact ⟨rfl, le_refl _⟩
  | datetime stamp => exact ⟨rfl, le_refl _⟩
  | list members h ih =>
      rw [reread_normal_list]
      constructor
      · rw [PyValue.nodes, PyValue.nodes, PyValue.elementNodes_eq, PyValue.elementNodes_eq,
          List.map_map]
        congr 2
        exact List.map_congr_left fun x hx => (ih x hx).1
      · rw [PyValue.height, PyValue.height]
        refine Nat.add_le_add_left (PyValue.elementHeight_le fun x hx => ?_) 1
        obtain ⟨y, hy, rfl⟩ := List.mem_map.mp hx
        exact (ih y hy).2.trans (PyValue.height_le_of_mem_list hy)
  | dict members hkeys h ih =>
      rw [reread_normal_dict]
      constructor
      · rw [nodes_dict, nodes_dict, sortedMembers_reread hkeys fun x => reread P (normal P x),
          List.map_map]
        congr 2
        refine List.map_congr_left fun m hm => ?_
        obtain ⟨m', hm', rfl⟩ := mem_sortedMembers hm
        exact (ih m' hm').1
      · rw [PyValue.height, PyValue.height]
        refine Nat.add_le_add_left (PyValue.memberHeight_le fun m hm => ?_) 1
        obtain ⟨m', hm', rfl⟩ := List.mem_map.mp hm
        obtain ⟨m'', hm'', rfl⟩ := mem_sortedMembers hm'
        exact (ih m'' hm'').2.trans (PyValue.height_le_of_mem_dict hm'')

/-- The integers of a normal form are those of the encoder. -/
theorem ints_normal {v : PyValue P.runtime.Float} (h : WellFormed P.runtime v) :
    ∀ n ∈ PyJson.ints (normal P v), inCanonicalRange n = true := by
  induction h with
  | none => exact nofun
  | bool flag => exact nofun
  | int value hrange =>
      intro n hn
      rw [List.mem_singleton.mp hn]
      exact hrange
  | float value hfinite hrange =>
      show ∀ n ∈ PyJson.ints (normalFloat P value), inCanonicalRange n = true
      cases hintegral : P.integral value with
      | some m =>
          rw [normalFloat_of_integral hintegral]
          intro n hn
          rw [List.mem_singleton.mp hn]
          exact hrange m hintegral
      | none =>
          rw [normalFloat_of_fraction ⟨hfinite, hintegral⟩]
          exact nofun
  | str text => exact nofun
  | datetime stamp => exact nofun
  | list members h ih =>
      intro n hn
      rw [normal_list] at hn
      obtain ⟨x, hx, hn⟩ := PyJson.mem_elementsInts hn
      obtain ⟨y, hy, rfl⟩ := List.mem_map.mp hx
      exact ih y hy n hn
  | dict members hkeys h ih =>
      intro n hn
      rw [normal_dict] at hn
      obtain ⟨m, hm, hn⟩ := PyJson.mem_membersInts hn
      obtain ⟨m', hm', rfl⟩ := List.mem_map.mp hm
      obtain ⟨m'', hm'', rfl⟩ := mem_sortedMembers hm'
      exact ih m'' hm'' n hn

/-- **The bytes read back and encoded again are the same.** -/
theorem canonicalJsonBytes_loads {limits : CanonicalLimits} {v : PyValue P.runtime.Float}
    {bytes : List UInt8} (h : canonicalJsonBytes P.runtime limits v = .ok bytes) :
    ∃ text obj u, bytes = encodeUtf8 text ∧ PyJson.loads (P := P.floats) text = some obj ∧
      ofObj P obj = some u ∧ canonicalJsonBytes P.runtime limits u = .ok bytes := by
  obtain ⟨⟨hwell, hnodes, hheight, hsize⟩, hbytes⟩ := canonicalJsonBytes_eq_ok_iff.mp h
  have hshort : PyJson.Short (PyJson.ints (normal P v)) := by
    intro n hn
    have hbig : 2 ^ 63 < 10 ^ PyJson.intMaxStrDigits :=
      (by decide : 2 ^ 63 < 10 ^ 20).trans_le (Nat.pow_le_pow_right (by decide) (by decide))
    exact (natAbs_le_of_inCanonicalRange (ints_normal hwell n hn)).trans_lt hbig
  obtain ⟨hrewell, hnormal⟩ := normal_reread hwell
  obtain ⟨hrenodes, hreheight⟩ := size_reread hwell
  have htext : canonicalText P.runtime (reread P (normal P v)) = canonicalText P.runtime v := by
    rw [canonicalText_eq_text hrewell, hnormal, canonicalText_eq_text hwell]
  refine ⟨(normal P v).text, PyJson.ofValue P.numerals (normal P v), reread P (normal P v), ?_,
    PyJson.loads_text P.numerals _ hshort, ofObj_ofValue _ (keysIncreasing_normal hwell), ?_⟩
  · rw [hbytes, canonicalText_eq_text hwell]
  · refine canonicalJsonBytes_eq_ok_iff.mpr ⟨⟨hrewell, ?_, hreheight.trans hheight, ?_⟩, ?_⟩
    · rw [hrenodes]
      exact hnodes
    · rw [htext]
      exact hsize
    · rw [htext]
      exact hbytes

/-! ## Floats -/

/-- **What is written for a float**: an integral one as the integer it is, any other one as a text
that denotes exactly its shortest decimal. -/
theorem serializeFloat_denotes {x : P.Float} {text : List Char}
    (h : serializeFloat P.runtime x = .ok text) :
    (∀ n, P.integral x = some n → text = intText n) ∧
      (P.integral x = none → Numeral.decimal? text = some (P.shortest x)) := by
  obtain ⟨⟨hfinite, -⟩, rfl⟩ := serializeFloat_ok.mp h
  have htext : canonicalText P.runtime (.float x) = (normalFloat P x).text := by
    rw [text_normalFloat hfinite]
    rfl
  rw [htext]
  constructor
  · intro n hn
    rw [normalFloat_of_integral hn, Value.text]
  · intro hnone
    rw [normalFloat_of_fraction ⟨hfinite, hnone⟩]
    exact CanonicalPlatform.decimal?_text ⟨x, hfinite, hnone⟩

/-- **Canonical JSON is a normal form.** For values that the encoder accepts: equal bytes are equal
normal forms; the bytes are those of the normal form, whose keys increase; they are the same when
read back and encoded again; and a float is written as the integer it is, or as its shortest
decimal. -/
theorem canonicalJson_normal_form {limits limits' : CanonicalLimits}
    {v w : PyValue P.runtime.Float} {bytes bytes' : List UInt8}
    (hv : canonicalJsonBytes P.runtime limits v = .ok bytes)
    (hw : canonicalJsonBytes P.runtime limits' w = .ok bytes') :
    (bytes = bytes' ↔ normal P v = normal P w) ∧
      (∃ text obj u, bytes = encodeUtf8 text ∧ PyJson.loads (P := P.floats) text = some obj ∧
        ofObj P obj = some u ∧ canonicalJsonBytes P.runtime limits u = .ok bytes) ∧
      (bytes = encodeUtf8 (normal P v).text ∧ KeysIncreasing (normal P v)) ∧
      ∀ x text, serializeFloat P.runtime x = .ok text →
        (∀ n, P.integral x = some n → text = intText n) ∧
          (P.integral x = none → Numeral.decimal? text = some (P.shortest x)) := by
  obtain ⟨hwell, hbytes⟩ := canonicalJsonBytes_ok hv
  exact ⟨canonicalJsonBytes_eq_iff hv hw, canonicalJsonBytes_loads hv,
    ⟨hbytes, keysIncreasing_normal hwell⟩, fun _ _ h => serializeFloat_denotes h⟩

end Normal

/-! ## A sample platform -/

inductive SampleFloat where
  | half
  /-- `2.0 ** 62` -/
  | large
  | inf
  | negInf
  | nan
  deriving DecidableEq

def samplePlatform : CanonicalPlatform where
  Float := SampleFloat
  isFinite x := x = .half || x = .large
  integral x := if x = .large then some (2 ^ 62) else none
  shortest x := if x = .large then ⟨false, 4611686018427388, 3⟩ else ⟨false, 5, -1⟩
  ofDecimal d := if d = ⟨false, 5, -1⟩ then .half
    else if d = ⟨false, 4611686018427388, 3⟩ then .large else .nan
  inf := .inf
  negInf := .negInf
  nan := .nan
  nfc := id
  ofDecimal_shortest x hfinite hintegral := by
    cases x <;> simp_all
  shortest_exponent x hfinite hintegral := by
    cases x <;> simp_all
  nfc_ascii _ _ := rfl
  nfc_nfc _ := rfl
  nfc_return _ h := h

/-- An integral float is written as the integer it is, which is not its shortest decimal. -/
theorem serializeFloat_not_shortest :
    serializeFloat samplePlatform.runtime SampleFloat.large = .ok (intText 4611686018427387904) ∧
      (samplePlatform.shortest SampleFloat.large).value ≠ ((4611686018427387904 : Int) : ℚ) := by
  have hshortest : samplePlatform.shortest SampleFloat.large = ⟨false, 4611686018427388, 3⟩ := rfl
  refine ⟨rfl, ?_⟩
  rw [hshortest]
  norm_num [Numeral.Decimal.value]

/-- The bytes of one small object. -/
def sampleBytes : List UInt8 := encodeUtf8 "\x7b\"a\":\"x\\n\",\"b\":0.5\x7d".toList

/-- One object in and out of order, with different line ends. -/
theorem canonicalJson_normal_form_sample :
    canonicalJsonBytes samplePlatform.runtime ⟨32, 10000, 262144⟩
        (.dict [("b", .float SampleFloat.half), ("a", .str "x\r\n")]) = .ok sampleBytes ∧
      canonicalJsonBytes samplePlatform.runtime ⟨2, 3, 19⟩
        (.dict [("a", .str "x\n"), ("b", .float SampleFloat.half)]) = .ok sampleBytes ∧
      normal samplePlatform (.dict [("b", .float SampleFloat.half), ("a", .str "x\r\n")]) =
        normal samplePlatform (.dict [("a", .str "x\n"), ("b", .float SampleFloat.half)]) := by
  have hv : canonicalJsonBytes samplePlatform.runtime ⟨32, 10000, 262144⟩
      (.dict [("b", .float SampleFloat.half), ("a", .str "x\r\n")]) = .ok sampleBytes := rfl
  have hw : canonicalJsonBytes samplePlatform.runtime ⟨2, 3, 19⟩
      (.dict [("a", .str "x\n"), ("b", .float SampleFloat.half)]) = .ok sampleBytes := rfl
  exact ⟨hv, hw, (canonicalJson_normal_form hv hw).1.mp rfl⟩

end Milhouse
