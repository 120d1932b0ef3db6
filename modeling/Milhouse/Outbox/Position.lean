import Milhouse.Core.Canonical
import Milhouse.Lib.PyJson

/-!
# Milhouse — the position of an outbox cursor

A cursor's position is an opaque string: the canonical text of the file's identity, the bytes consumed
of it and the digest of those. The decoder takes any string, and accepts one only where the encoder
gives it back.

* **`decodeOutboxPosition_encode`** — a position is decoded from what it is encoded as;
* **`decodeOutboxPosition_cases`** — a string of characters is accepted as it is encoded, or is
  refused with the one code of an outbox position;
* `decodeOutboxPosition_surrogate` — a string with a surrogate raises what nothing catches.
-/

namespace Milhouse

open Json PyJson Text

/-- An `OutboxError`. -/
structure OutboxError where
  code : String
  message : String
  deriving DecidableEq, Repr

namespace Outbox

def outboxPositionVersion : Int := 1
def maxPositionBytes : Nat := 512

/-- `raise OutboxError("MH_OUTBOX_POSITION", message)`. -/
def positionError (message : String) : OutboxError := ⟨"MH_OUTBOX_POSITION", message⟩

/-- `OutboxPosition`, past its constructor. -/
structure OutboxPosition where
  device : Nat
  inode : Nat
  offset : Nat
  contentSha256 : List Char
  deviceBound : device ≤ maxCanonicalInt
  inodeBound : inode ≤ maxCanonicalInt
  offsetBound : offset ≤ maxCanonicalInt
  validDigest : isSha256Hex contentSha256 = true

/-- The check of one integer field. -/
def inBound (value : Int) : Bool := 0 ≤ value && value ≤ maxCanonicalInt

/-- A field is in bound exactly if it is a natural number up to the largest canonical integer. -/
theorem inBound_iff {value : Int} :
    inBound value = true ↔ 0 ≤ value ∧ value.toNat ≤ maxCanonicalInt := by
  simp only [inBound, Bool.and_eq_true, decide_eq_true_eq]
  omega

/-- `OutboxPosition.__post_init__`, on fields of the right types. -/
def OutboxPosition.make (device inode offset : Int) (contentSha256 : List CodePoint) :
    Except OutboxError OutboxPosition :=
  if hdevice : inBound device = true then
    if hinode : inBound inode = true then
      if hoffset : inBound offset = true then
        match scalars contentSha256 with
        | none => .error (positionError "a lowercase hex sha-256 prefix digest is required")
        | some digest =>
            if hdigest : isSha256Hex digest = true then
              .ok ⟨device.toNat, inode.toNat, offset.toNat, digest, (inBound_iff.mp hdevice).2,
                (inBound_iff.mp hinode).2, (inBound_iff.mp hoffset).2, hdigest⟩
            else .error (positionError "a lowercase hex sha-256 prefix digest is required")
      else .error (positionError "a bounded non-negative offset is required")
    else .error (positionError "a bounded non-negative inode is required")
  else .error (positionError "a bounded non-negative device is required")

section Codec

variable (rt : CanonicalRuntime) (P : Floats)

/-! ## The encoder -/

/-- The fields of a position, as the encoder gets them. -/
def positionFields (position : OutboxPosition) : List (String × PyValue rt.Float) :=
  [("dev", .int position.device), ("inode", .int position.inode),
    ("offset", .int position.offset), ("sha256", .str (String.ofList position.contentSha256)),
    ("v", .int outboxPositionVersion)]

def positionPayload (position : OutboxPosition) : PyValue rt.Float :=
  .dict (positionFields rt position)

def positionLimits : CanonicalLimits := ⟨defaultMaxDepth, defaultMaxNodes, maxPositionBytes⟩

/-- `encode_outbox_position`. -/
def encodeOutboxPosition (position : OutboxPosition) : Except OutboxError (List CodePoint) :=
  match canonicalJsonText rt positionLimits (positionPayload rt position) with
  | .ok text => .ok (text.map ofChar)
  | .error _ => .error (positionError "the outbox position could not be encoded")

/-! ## The decoder -/

/-- What leaves the decoder: its own error, or that of `position.encode("utf-8")`. -/
inductive Raised where
  | outbox (error : OutboxError)
  | unicodeEncode
  deriving DecidableEq, Repr

/-- `_POSITION_KEYS`. -/
def positionKeys : List (List CodePoint) :=
  ["dev", "inode", "offset", "sha256", "v"].map fun key => key.toList.map ofChar

/-- `frozenset(value) == keys`. -/
def sameKeys {α : Type} (members : List (List CodePoint × α)) (keys : List (List CodePoint)) : Bool :=
  members.all (fun m => m.1 ∈ keys) && keys.all fun key => key ∈ members.map Prod.fst

/-- `value[key]`. -/
def item? {α : Type} (members : List (List CodePoint × α)) (key : String) : Option α :=
  (members.find? fun m => m.1 = key.toList.map ofChar).map Prod.snd

/-- `value == number`, for an integer; `floatEq` compares a float with one. -/
def equalsInt (floatEq : P.Float → Int → Bool) (number : Int) : Obj P.Float → Bool
  | .int value => value = number
  | .bool flag => (if flag then 1 else 0) = number
  | .float value => floatEq value number
  | _ => false

variable (floatEq : P.Float → Int → Bool)

/-- The position of the members of an object, past its fields' checks. -/
def readPosition (members : List (List CodePoint × Obj P.Float)) :
    Except OutboxError OutboxPosition :=
  if !sameKeys members positionKeys ||
      !(item? members "v").any (equalsInt P floatEq outboxPositionVersion) then
    .error (positionError "an unsupported or malformed outbox position")
  else
    match item? members "dev", item? members "inode", item? members "offset",
        item? members "sha256" with
    | some (.int device), some (.int inode), some (.int offset), digest =>
        match digest with
        | some (.str digest) => OutboxPosition.make device inode offset digest
        | _ => .error (positionError "the outbox position digest must be a string")
    | _, _, _, _ =>
        .error (positionError "outbox position identity and offset must be integers")

/-- The object of a text. `json.loads` fails with what the decoder catches. -/
def readPayload (text : List Char) : Except OutboxError (List (List CodePoint × Obj P.Float)) :=
  match (loads text : Option (Obj P.Float)) with
  | some (.dict members) => .ok members
  | _ => .error (positionError "an outbox position must be a JSON object")

/-- The check that a decoded position is encoded as the string it comes from. -/
def checkCanonical (position : List CodePoint) (decoded : OutboxPosition) :
    Except OutboxError OutboxPosition :=
  (encodeOutboxPosition rt decoded).bind fun encoded =>
    if encoded ≠ position then .error (positionError "the outbox position is not canonical")
    else .ok decoded

/-- `decode_outbox_position`. -/
def decodeOutboxPosition (position : List CodePoint) : Except Raised OutboxPosition :=
  if position = [] then
    .error (.outbox (positionError "a bounded outbox position string is required"))
  else
    match scalars position with
    | none => .error .unicodeEncode
    | some text =>
        if maxPositionBytes < (encodeUtf8 text).length then
          .error (.outbox (positionError "a bounded outbox position string is required"))
        else
          (((readPayload P text).bind (readPosition P floatEq)).bind
            (checkCanonical rt position)).mapError .outbox

/-- The position of a `SourceCursor`; nothing else of it is read. -/
structure SourceCursor where
  position : List CodePoint

/-- `outbox_position_from_cursor`. -/
def outboxPositionFromCursor (cursor : SourceCursor) : Except Raised OutboxPosition :=
  decodeOutboxPosition rt P floatEq cursor.position

end Codec

section Spec

variable {rt : CanonicalRuntime} {P : Floats} {floatEq : P.Float → Int → Bool}

/-! ## The text of a position -/

/-- The object of a position, as it is read back. -/
def positionMembers (position : OutboxPosition) : List (List Char × Value integersOnly) :=
  [("dev".toList, .int position.device), ("inode".toList, .int position.inode),
    ("offset".toList, .int position.offset), ("sha256".toList, .str position.contentSha256),
    ("v".toList, .int outboxPositionVersion)]

theorem inCanonicalRange_natCast {n : Nat} (h : n ≤ maxCanonicalInt) :
    inCanonicalRange n = true := by
  unfold inCanonicalRange minCanonicalInt
  unfold maxCanonicalInt at h
  simp only [Bool.and_eq_true, decide_eq_true_eq]
  omega

/-- The fields of a position are written in the order of their keys. -/
theorem positionFields_keys (position : OutboxPosition) :
    (positionFields rt position).map Prod.fst = ["dev", "inode", "offset", "sha256", "v"] := rfl

theorem positionFields_ascii (position : OutboxPosition) :
    ∀ m ∈ positionFields rt position, IsAsciiText m.1.toList := by
  intro m hm
  have hall : (["dev", "inode", "offset", "sha256", "v"].all fun key =>
      key.toList.all fun c => decide (c.toNat < 128 ∧ c ≠ '\r')) = true := by decide
  simp only [List.all_eq_true, decide_eq_true_eq] at hall
  exact hall m.1 (@positionFields_keys rt position ▸ List.mem_map_of_mem hm)

/-- The payload of every position can be encoded. -/
theorem wellFormed_positionPayload (position : OutboxPosition) :
    WellFormed rt (positionPayload rt position) := by
  have hnormal : (positionFields rt position).map (fun m => normalizeString rt m.1) =
      (positionFields rt position).map Prod.fst :=
    List.map_congr_left fun m hm => normalizeString_ascii (positionFields_ascii position m hm)
  have hkeys : ((positionFields rt position).map fun m => normalizeString rt m.1).Nodup := by
    rw [hnormal, positionFields_keys]
    decide
  refine .dict (positionFields rt position) hkeys ?_
  simp only [positionFields, List.forall_mem_cons]
  exact ⟨.int _ (inCanonicalRange_natCast position.deviceBound),
    .int _ (inCanonicalRange_natCast position.inodeBound),
    .int _ (inCanonicalRange_natCast position.offsetBound), .str _, .int _ (by decide), nofun⟩

theorem isAsciiText_of_isSha256Hex {digest : List Char} (h : isSha256Hex digest = true) :
    IsAsciiText digest := by
  intro c hc
  simp only [isSha256Hex, Bool.and_eq_true, List.all_eq_true, Bool.or_eq_true,
    decide_eq_true_eq] at h
  rcases h.2 c hc with ⟨hlow, hhigh⟩ | ⟨hlow, hhigh⟩
  · have hbound : c.toNat ≤ 57 := hhigh
    refine ⟨by omega, ?_⟩
    rintro rfl
    exact absurd hlow (by decide)
  · have hbound : c.toNat ≤ 102 := hhigh
    refine ⟨by omega, ?_⟩
    rintro rfl
    exact absurd hlow (by decide)

/-- **The canonical text of a position** is the compact text of its object. -/
theorem canonicalText_positionPayload (position : OutboxPosition) :
    canonicalText rt (positionPayload rt position) = (Value.obj (positionMembers position)).text := by
  have hsorted : ((positionFields rt position).map Prod.fst).Pairwise (· ≤ ·) := by
    rw [positionFields_keys]
    decide
  have hdigest : quoteString rt (String.ofList position.contentSha256) =
      quote position.contentSha256 := by
    have hascii := isAsciiText_of_isSha256Hex position.validDigest
    rw [← String.toList_ofList (l := position.contentSha256)] at hascii
    rw [quoteString_ascii hascii, String.toList_ofList]
  have hkey : ∀ m ∈ positionFields rt position, quoteString rt m.1 = quote m.1.toList :=
    fun m hm => quoteString_ascii (positionFields_ascii position m hm)
  rw [text_obj]
  show canonicalText rt (.dict (positionFields rt position)) = _
  rw [canonicalText_dict, sortedMembers_of_ascii (positionFields_ascii position) hsorted, braced]
  congr 3
  simp only [positionFields, List.forall_mem_cons] at hkey
  obtain ⟨hdev, hinode, hoffset, hsha, hv, -⟩ := hkey
  simp only [positionFields, positionMembers, List.map_cons, List.map_nil, memberText,
    Json.memberText, hdev, hinode, hoffset, hsha, hv, canonicalText, hdigest, Value.text]

/-- The text of a position is ASCII throughout. -/
theorem positionText_ascii (position : OutboxPosition) :
    ∀ c ∈ (Value.obj (positionMembers position)).text, c.toNat < 128 := by
  have hint : ∀ n : Nat, (intText n).all (fun c => c.toNat < 128) = true := by
    intro n
    refine List.all_eq_true.mpr fun c hc => decide_eq_true ?_
    rw [intText, if_neg (by omega)] at hc
    have hdigit := Char.isDigit_iff_toNat.mp (isDigit_of_mem_toDigits hc)
    have hnine : c.toNat ≤ 57 := hdigit.2
    omega
  have hdigest : (quote position.contentSha256).all (fun c => c.toNat < 128) = true := by
    rw [quote, flatMap_escape (isPlain_of_isSha256Hex position.validDigest), List.all_append,
      List.all_cons, List.all_eq_true.mpr fun c hc => decide_eq_true
        (isAsciiText_of_isSha256Hex position.validDigest c hc).1]
    decide
  have hdev : (quote "dev".toList).all (fun c => c.toNat < 128) = true := by decide
  have hinode : (quote "inode".toList).all (fun c => c.toNat < 128) = true := by decide
  have hoffset : (quote "offset".toList).all (fun c => c.toNat < 128) = true := by decide
  have hsha : (quote "sha256".toList).all (fun c => c.toNat < 128) = true := by decide
  have hv : (quote "v".toList).all (fun c => c.toNat < 128) = true := by decide
  have hone : (intText outboxPositionVersion).all (fun c => c.toNat < 128) = true := by decide
  have hall : ((Value.obj (positionMembers position)).text).all (fun c => c.toNat < 128) = true := by
    simp only [positionMembers, Value.text, membersText, List.all_append, List.all_cons, hint,
      hdigest, hdev, hinode, hoffset, hsha, hv, hone, List.all_nil]
    decide
  exact fun c hc => of_decide_eq_true (List.all_eq_true.mp hall c hc)

/-- The text of every position is within the byte bound. -/
theorem length_positionText (position : OutboxPosition) :
    (Value.obj (positionMembers position)).text.length ≤ maxPositionBytes := by
  have hdevice := length_intText position.deviceBound
  have hinode := length_intText position.inodeBound
  have hoffset := length_intText position.offsetBound
  have hdigest := length_quote (isPlain_of_isSha256Hex position.validDigest)
  have hsixtyfour : position.contentSha256.length = 64 := by
    have hvalid := position.validDigest
    simp only [isSha256Hex, Bool.and_eq_true, decide_eq_true_eq] at hvalid
    exact hvalid.1
  have hkdev : (quote "dev".toList).length = 5 := by decide
  have hkinode : (quote "inode".toList).length = 7 := by decide
  have hkoffset : (quote "offset".toList).length = 8 := by decide
  have hksha : (quote "sha256".toList).length = 8 := by decide
  have hkv : (quote "v".toList).length = 3 := by decide
  have hone : (intText outboxPositionVersion).length = 1 := by decide
  simp only [positionMembers, Value.text, membersText, List.length_append, List.length_cons,
    List.length_nil, hdigest, hsixtyfour, hkdev, hkinode, hkoffset, hksha, hkv, hone]
  unfold maxPositionBytes
  omega

/-- The encoder always gives the canonical text. -/
theorem encodeOutboxPosition_eq (position : OutboxPosition) :
    encodeOutboxPosition rt position =
      .ok ((Value.obj (positionMembers position)).text.map ofChar) := by
  have hbytes : (encodeUtf8 (canonicalText rt (positionPayload rt position))).length ≤
      positionLimits.maxBytes := by
    rw [canonicalText_positionPayload, length_encodeUtf8_ascii (positionText_ascii position)]
    exact length_positionText position
  unfold encodeOutboxPosition
  have hnodes : (positionPayload rt position).nodes ≤ positionLimits.maxNodes :=
    show 6 ≤ defaultMaxNodes by decide
  have hheight : (positionPayload rt position).height ≤ positionLimits.maxDepth :=
    show 1 ≤ defaultMaxDepth by decide
  rw [canonicalJsonText_of_wellFormed (wellFormed_positionPayload position) hnodes hheight hbytes,
    canonicalText_positionPayload]

/-! ## Positions are decoded from what they are encoded as -/

/-- The integers alone are read alike by both readers. -/
def integerNumerals (P : Floats) : Numerals integersOnly P where
  float := nofun
  readNumber := nofun

/-- No integer of a position has too many digits for the interpreter. -/
theorem short_positionMembers (position : OutboxPosition) :
    Short (ints (Value.obj (positionMembers position))) := by
  have hbound : ∀ n : Nat, n ≤ maxCanonicalInt → (n : Int).natAbs < 10 ^ intMaxStrDigits := by
    intro n hn
    calc (n : Int).natAbs = n := Int.natAbs_natCast n
      _ ≤ maxCanonicalInt := hn
      _ < 10 ^ 19 := by decide
      _ ≤ 10 ^ intMaxStrDigits := Nat.pow_le_pow_right (by decide) (by decide)
  intro n hn
  simp only [positionMembers, ints, membersInts, List.append_nil, List.mem_append,
    List.mem_singleton, List.not_mem_nil, false_or] at hn
  rcases hn with rfl | rfl | rfl | rfl
  · exact hbound _ position.deviceBound
  · exact hbound _ position.inodeBound
  · exact hbound _ position.offsetBound
  · exact hbound 1 (by decide)

/-- The constructor accepts the fields of a position there is. -/
theorem OutboxPosition.make_self (position : OutboxPosition) :
    OutboxPosition.make position.device position.inode position.offset
      (position.contentSha256.map ofChar) = .ok position := by
  have hbound : ∀ n : Nat, n ≤ maxCanonicalInt → inBound n = true :=
    fun n hn => inBound_iff.mpr ⟨by omega, hn⟩
  unfold OutboxPosition.make
  rw [dif_pos (hbound _ position.deviceBound), dif_pos (hbound _ position.inodeBound),
    dif_pos (hbound _ position.offsetBound), scalars_eq_some_iff.mpr rfl]
  dsimp only
  rw [dif_pos position.validDigest]
  rfl

/-- The object of a position, as `json.loads` gives it. -/
def positionObject (P : Floats) (position : OutboxPosition) :
    List (List CodePoint × Obj P.Float) :=
  ofMembers (integerNumerals P) (positionMembers position)

/-- The text of a position is parsed as its object. -/
theorem readPayload_text (position : OutboxPosition) :
    readPayload P (Value.obj (positionMembers position)).text =
      .ok (positionObject P position) := by
  have hread := loads_text (integerNumerals P) _ (short_positionMembers position)
  have hkeys : ((positionObject P position).map Prod.fst).Nodup := by
    show positionKeys.Nodup
    decide
  have hdict := toDict_of_nodup hkeys
  unfold positionObject at hdict ⊢
  unfold readPayload
  rw [hread, ofValue, hdict]

theorem sameKeys_of_map_eq {α : Type} {members : List (List CodePoint × α)}
    {keys : List (List CodePoint)} (h : members.map Prod.fst = keys) : sameKeys members keys = true := by
  rw [← h]
  simp only [sameKeys, Bool.and_eq_true, List.all_eq_true, decide_eq_true_eq]
  exact ⟨fun m hm => List.mem_map_of_mem hm, fun _ hkey => hkey⟩

/-- That object is read as the position. -/
theorem readPosition_object (position : OutboxPosition) :
    readPosition P floatEq (positionObject P position) = .ok position := by
  have hkeys : sameKeys (positionObject P position) positionKeys = true := sameKeys_of_map_eq rfl
  have hversion : item? (positionObject P position) "v" = some (.int outboxPositionVersion) := rfl
  have hdevice : item? (positionObject P position) "dev" = some (.int position.device) := rfl
  have hinode : item? (positionObject P position) "inode" = some (.int position.inode) := rfl
  have hoffset : item? (positionObject P position) "offset" = some (.int position.offset) := rfl
  have hdigest : item? (positionObject P position) "sha256" =
      some (.str (position.contentSha256.map ofChar)) := rfl
  unfold readPosition
  rw [hkeys, hversion, hdevice, hinode, hoffset, hdigest]
  exact OutboxPosition.make_self position

/-- **A position is decoded from what it is encoded as.** -/
theorem decodeOutboxPosition_encode (position : OutboxPosition) :
    ∃ text, encodeOutboxPosition rt position = .ok text ∧
      decodeOutboxPosition rt P floatEq text = .ok position := by
  refine ⟨_, encodeOutboxPosition_eq position, ?_⟩
  have hne : ((Value.obj (positionMembers position)).text.map ofChar) ≠ [] := by
    rw [text_obj]
    exact List.cons_ne_nil _ _
  have hbytes : ¬ maxPositionBytes <
      (encodeUtf8 (Value.obj (positionMembers position)).text).length := by
    rw [length_encodeUtf8_ascii (positionText_ascii position)]
    exact Nat.not_lt.mpr (length_positionText position)
  unfold decodeOutboxPosition
  rw [if_neg hne, scalars_eq_some_iff.mpr rfl]
  dsimp only
  rw [if_neg hbytes, readPayload_text, Except.bind, readPosition_object, Except.bind,
    checkCanonical, encodeOutboxPosition_eq, Except.bind, if_neg (not_not.mpr rfl)]
  rfl

/-! ## Every string of characters has one of two outcomes -/

/-- What is refused has the code of an outbox position. -/
def Refused {α : Type} (result : Except OutboxError α) : Prop :=
  ∃ message, result = .error (positionError message)

/-- The constructor gives a position or the coded refusal, whatever the fields. -/
theorem make_outcome (device inode offset : Int) (digest : List CodePoint) :
    (∃ position, OutboxPosition.make device inode offset digest = .ok position) ∨
      Refused (OutboxPosition.make device inode offset digest) := by
  unfold OutboxPosition.make
  split
  · split
    · split
      · split
        · exact Or.inr ⟨_, rfl⟩
        · split
          · exact Or.inl ⟨_, rfl⟩
          · exact Or.inr ⟨_, rfl⟩
      · exact Or.inr ⟨_, rfl⟩
    · exact Or.inr ⟨_, rfl⟩
  · exact Or.inr ⟨_, rfl⟩

/-- An object is read as a position or refused with the code. -/
theorem readPosition_outcome (members : List (List CodePoint × Obj P.Float)) :
    (∃ position, readPosition P floatEq members = .ok position) ∨
      Refused (readPosition P floatEq members) := by
  unfold readPosition
  split
  · exact Or.inr ⟨_, rfl⟩
  · split
    · split
      · exact make_outcome _ _ _ _
      · exact Or.inr ⟨_, rfl⟩
    · exact Or.inr ⟨_, rfl⟩

/-- A text is parsed as an object or refused with the code. -/
theorem readPayload_outcome (text : List Char) :
    (∃ members, readPayload P text = .ok members) ∨ Refused (readPayload P text) := by
  unfold readPayload
  split
  · exact Or.inl ⟨_, rfl⟩
  · exact Or.inr ⟨_, rfl⟩

/-- A position is accepted exactly under the text it is encoded as. -/
theorem checkCanonical_outcome (text : List CodePoint) (position : OutboxPosition) :
    (checkCanonical rt text position = .ok position ∧ encodeOutboxPosition rt position = .ok text) ∨
      Refused (checkCanonical rt text position) := by
  unfold checkCanonical
  rw [encodeOutboxPosition_eq, Except.bind]
  split
  · exact Or.inr ⟨_, rfl⟩
  · rename_i hsame
    exact Or.inl ⟨rfl, congrArg Except.ok (not_not.mp hsame)⟩

/-- **A string of characters** is accepted as it is encoded, or is refused with the one code. -/
theorem decodeOutboxPosition_cases {text : List CodePoint} (h : text.any isSurrogate = false) :
    (∃ position, decodeOutboxPosition rt P floatEq text = .ok position ∧
      encodeOutboxPosition rt position = .ok text) ∨
    ∃ message, decodeOutboxPosition rt P floatEq text =
      .error (.outbox (positionError message)) := by
  unfold decodeOutboxPosition
  split
  · exact Or.inr ⟨_, rfl⟩
  · split
    · rename_i hscalars
      rw [scalars_eq_none_iff.mp hscalars] at h
      cases h
    · rename_i chars hscalars
      split
      · exact Or.inr ⟨_, rfl⟩
      · rcases @readPayload_outcome P chars with ⟨members, hmembers⟩ | ⟨message, hrefused⟩
        · rw [hmembers, Except.bind]
          rcases @readPosition_outcome P floatEq members with ⟨p, hp⟩ | ⟨message, hrefused⟩
          · rw [hp, Except.bind]
            rcases @checkCanonical_outcome rt text p with ⟨hok, hencode⟩ | ⟨message, hrefused⟩
            · rw [hok]
              exact Or.inl ⟨p, rfl, hencode⟩
            · rw [hrefused]
              exact Or.inr ⟨message, rfl⟩
          · rw [hrefused]
            exact Or.inr ⟨message, rfl⟩
        · rw [hrefused]
          exact Or.inr ⟨message, rfl⟩

/-- A string with a surrogate is not UTF-8, and that leaves the decoder. -/
theorem decodeOutboxPosition_surrogate {text : List CodePoint} (h : text.any isSurrogate = true) :
    decodeOutboxPosition rt P floatEq text = .error .unicodeEncode := by
  have hne : text ≠ [] := by
    rintro rfl
    cases h
  unfold decodeOutboxPosition
  rw [if_neg hne, scalars_eq_none_iff.mpr h]

/-- A string is accepted as it is encoded, or is refused with an `OutboxError`. -/
def FailsClosed (rt : CanonicalRuntime) (P : Floats) (floatEq : P.Float → Int → Bool)
    (text : List CodePoint) : Prop :=
  (∃ position, decodeOutboxPosition rt P floatEq text = .ok position ∧
    encodeOutboxPosition rt position = .ok text) ∨
  ∃ error, decodeOutboxPosition rt P floatEq text = .error (.outbox error) ∧
    error.code = "MH_OUTBOX_POSITION"

/-- **The codec round-trips, and fails closed exactly on strings of characters.** -/
theorem outboxPosition_codec (rt : CanonicalRuntime) (P : Floats)
    (floatEq : P.Float → Int → Bool) :
    (∀ position, ∃ text, encodeOutboxPosition rt position = .ok text ∧
      decodeOutboxPosition rt P floatEq text = .ok position) ∧
    ∀ text, FailsClosed rt P floatEq text ↔ text.any isSurrogate = false := by
  refine ⟨decodeOutboxPosition_encode, fun text => ?_⟩
  constructor
  · intro hclosed
    cases hsurrogate : text.any isSurrogate with
    | false => rfl
    | true =>
        have hraised := @decodeOutboxPosition_surrogate rt P floatEq text hsurrogate
        rcases hclosed with ⟨p, hok, -⟩ | ⟨e, herror, -⟩
        · rw [hraised] at hok
          cases hok
        · rw [hraised] at herror
          cases herror
  · intro hchars
    rcases @decodeOutboxPosition_cases rt P floatEq text hchars with
      haccepted | ⟨message, hrefused⟩
    · exact Or.inl haccepted
    · exact Or.inr ⟨_, hrefused, rfl⟩

theorem id_eq_text (text : String) (_ : ∀ c ∈ text.toList, c.toNat < 128) : id text = text := rfl

/-- A runtime without floats, in which every text is in NFC. -/
def sampleRuntime : CanonicalRuntime where
  Float := Empty
  isFinite := nofun
  integral := nofun
  floatText := nofun
  nfc := id
  nfc_ascii := id_eq_text

def sampleFloats : Floats where
  Float := Unit
  ofNumeral := fun _ => ()
  inf := ()
  negInf := ()
  nan := ()

/-- The string of one lone surrogate raises another exception. -/
theorem outboxPosition_lone_surrogate :
    ¬ FailsClosed sampleRuntime sampleFloats (fun _ _ => false) [⟨0xD800, by decide⟩] := by
  have hraised := @decodeOutboxPosition_surrogate sampleRuntime sampleFloats (fun _ _ => false)
    [⟨0xD800, by decide⟩] (by decide)
  rintro (⟨p, hok, -⟩ | ⟨e, herror, -⟩)
  · rw [hraised] at hok
    cases hok
  · rw [hraised] at herror
    cases herror

end Spec

end Outbox

end Milhouse
