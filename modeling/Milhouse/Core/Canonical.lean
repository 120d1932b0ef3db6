import Milhouse.Core.Timestamp
import Milhouse.Lib.Fallible
import Milhouse.Lib.Json
import Mathlib.Data.List.Sort

/-!
# Milhouse — canonical JSON

`canonicalJsonBytes` is the one encoder behind every hash and every durable line. A `PyValue` is what
it accepts: the values of JSON and timestamps, with strings that have no lone surrogate. The encoder
counts the values it visits and the containers it is inside of, and gives up past its limits.

* **`encodeValue_of_wellFormed`**, **`encodeValue_ok`** — what it writes depends on the value alone;
  the limits and the well-formedness of the value only decide whether it does;
* **`canonicalJsonBytes_eq_ok_iff`** — exactly the well-formed values within the limits are accepted;
* `canonicalJsonText_of_wellFormed` — so a well-formed value within the limits has its text;
* `sortedMembers_of_ascii` — members under sorted ASCII keys are written as they stand.
-/

namespace Milhouse

open Json

/-! ## Values -/

/-- What canonical JSON takes from the language. -/
structure CanonicalRuntime where
  Float : Type
  isFinite : Float → Bool
  /-- `int(value)`, where `value.is_integer()`. -/
  integral : Float → Option Int
  /-- The positional or scientific text of a finite float that is not integral. -/
  floatText : Float → List Char
  /-- `unicodedata.normalize("NFC", text)`. -/
  nfc : String → String
  /-- Text of ASCII characters is in NFC. -/
  nfc_ascii : ∀ text, (∀ c ∈ text.toList, c.toNat < 128) → nfc text = text

inductive PyValue (Float : Type) where
  | none
  | bool (flag : Bool)
  | int (value : Int)
  | float (value : Float)
  | str (text : String)
  | datetime (stamp : Stamp)
  | list (members : List (PyValue Float))
  | dict (members : List (String × PyValue Float))

namespace PyValue

variable {Float : Type}

/-- Induction over a value and the members of its containers. -/
theorem induct {P : PyValue Float → Prop} (none : P .none) (bool : ∀ b, P (.bool b))
    (int : ∀ n, P (.int n)) (float : ∀ x, P (.float x)) (str : ∀ s, P (.str s))
    (datetime : ∀ t, P (.datetime t)) (list : ∀ xs, (∀ x ∈ xs, P x) → P (.list xs))
    (dict : ∀ ms, (∀ m ∈ ms, P m.2) → P (.dict ms)) (v : PyValue Float) : P v :=
  PyValue.rec (motive_1 := P) (motive_2 := fun xs => ∀ x ∈ xs, P x)
    (motive_3 := fun ms => ∀ m ∈ ms, P m.2) (motive_4 := fun m => P m.2)
    none bool int float str datetime list dict
    (fun _ h => nomatch h)
    (fun _ _ hx hxs _ h => (List.mem_cons.mp h).elim (fun heq => heq ▸ hx) (hxs _))
    (fun _ h => nomatch h)
    (fun _ _ hm hms _ h => (List.mem_cons.mp h).elim (fun heq => heq ▸ hm) (hms _))
    (fun _ _ h => h) v

end PyValue

/-! ## The encoder -/

/-- A `CanonicalizationError`. -/
structure CanonicalizationError where
  code : String
  message : String
  deriving DecidableEq, Repr

def minCanonicalInt : Int := -(2 ^ 63)
def maxCanonicalInt : Nat := 2 ^ 63 - 1

structure CanonicalLimits where
  maxDepth : Nat
  maxNodes : Nat
  maxBytes : Nat

def defaultMaxDepth : Nat := 32
def defaultMaxNodes : Nat := 10000

/-- The UTF-8 bytes of a text. -/
def encodeUtf8 (text : List Char) : List UInt8 := text.flatMap String.utf8EncodeChar

/-- `value.replace("\r\n", "\n").replace("\r", "\n")`. -/
def normalizeLines : List Char → List Char
  | '\r' :: '\n' :: rest => '\n' :: normalizeLines rest
  | '\r' :: rest => '\n' :: normalizeLines rest
  | c :: rest => c :: normalizeLines rest
  | [] => []

/-- A text with normalized line ends has no carriage return. -/
theorem notMem_normalizeLines (text : List Char) : '\r' ∉ normalizeLines text := by
  fun_induction normalizeLines text with
  | case1 rest ih => exact List.not_mem_cons_of_ne_of_not_mem (by decide) ih
  | case2 rest h ih => exact List.not_mem_cons_of_ne_of_not_mem (by decide) ih
  | case3 c rest h hne ih => exact List.not_mem_cons_of_ne_of_not_mem (Ne.symm hne) ih
  | case4 => exact List.not_mem_nil

section Encoder

variable (rt : CanonicalRuntime) (limits : CanonicalLimits)

/-- `_normalize_string`. -/
def normalizeString (text : String) : String :=
  rt.nfc (String.ofList (normalizeLines text.toList))

/-- `_quote_string`. -/
def quoteString (text : String) : List Char := quote (normalizeString rt text).toList

/-- The encoder's state is the number of values visited. -/
abbrev Encoder := StateT Nat (Except CanonicalizationError)

def countNode : Encoder Unit := fun nodes =>
  if limits.maxNodes < nodes + 1 then
    .error ⟨"MH_CANONICAL_NODES", "the canonical value exceeds the node limit"⟩
  else .ok ((), nodes + 1)

def checkDepth (depth : Nat) : Encoder Unit :=
  if limits.maxDepth < depth then
    throw ⟨"MH_CANONICAL_DEPTH", "the canonical value exceeds the container-depth limit"⟩
  else pure ()

/-- The signed 64-bit integers. -/
def inCanonicalRange (value : Int) : Bool := minCanonicalInt ≤ value && value ≤ 2 ^ 63 - 1

/-- An integer of the canonical range fits into 64 bits. -/
theorem natAbs_le_of_inCanonicalRange {n : Int} (h : inCanonicalRange n = true) :
    n.natAbs ≤ 2 ^ 63 := by
  unfold inCanonicalRange minCanonicalInt at h
  rw [Bool.and_eq_true, decide_eq_true_eq, decide_eq_true_eq] at h
  omega

/-- `_serialize_integer`. -/
def serializeInteger (value : Int) : Except CanonicalizationError (List Char) :=
  if inCanonicalRange value then .ok (intText value)
  else .error ⟨"MH_CANONICAL_INTEGER_RANGE", "an integer is outside the signed 64-bit domain"⟩

/-- `_serialize_float`. -/
def serializeFloat (value : rt.Float) : Except CanonicalizationError (List Char) :=
  if !rt.isFinite value then .error ⟨"MH_CANONICAL_FLOAT", "a float must be finite"⟩
  else match rt.integral value with
    | some n => serializeInteger n
    | none => .ok (rt.floatText value)

/-- Run encoders one after the other. -/
def runEncoders : List (Encoder (List Char)) → Encoder (List (List Char))
  | [] => pure []
  | encoder :: rest => do
      let text ← encoder
      let texts ← runEncoders rest
      pure (text :: texts)

/-- Two keys in the order of their UTF-8 bytes, which is that of their code points. -/
def keyLe {α : Type} (a b : String × α) : Bool := a.1 ≤ b.1

/-- The check for keys that collide after normalization. -/
def checkKeys (keys : List String) : Encoder Unit :=
  if keys.Nodup then pure ()
  else throw ⟨"MH_CANONICAL_KEY_COLLISION", "object keys collide after canonical normalization"⟩

def bracketed (texts : List (List Char)) : List Char := '[' :: [','].intercalate texts ++ [']']

def braced (texts : List (List Char)) : List Char := '{' :: [','].intercalate texts ++ ['}']

/-- A member of an object: its key, a colon and its value. -/
def memberText (key : String) (value : List Char) : List Char :=
  quoteString rt key ++ ':' :: value

/-- The encoder of a member, from that of its value. -/
def memberEncoder (key : String) (encoder : Encoder (List Char)) : Encoder (List Char) := do
  let value ← encoder
  pure (memberText rt key value)

mutual

/-- `_encode_value`, `_encode_array` and `_encode_object`, inside `depth` containers. -/
def encodeValue : PyValue rt.Float → Nat → Encoder (List Char)
  | .none, _ => do countNode limits; pure "null".toList
  | .bool flag, _ => do countNode limits; pure (if flag then "true".toList else "false".toList)
  | .int value, _ => do countNode limits; serializeInteger value
  | .float value, _ => do countNode limits; serializeFloat rt value
  | .str text, _ => do countNode limits; pure (quoteString rt text)
  | .datetime stamp, _ => do
      countNode limits
      pure (quoteString rt (String.ofList (timestampText stamp)))
  | .list members, depth => do
      countNode limits
      checkDepth limits (depth + 1)
      let texts ← runEncoders (elementEncoders members (depth + 1))
      pure (bracketed texts)
  | .dict members, depth => do
      countNode limits
      checkDepth limits (depth + 1)
      let encoders := memberEncoders members (depth + 1)
      checkKeys (encoders.map (·.1))
      let texts ← runEncoders ((encoders.insertionSort fun a b => keyLe a b).map fun m =>
        memberEncoder rt m.1 m.2)
      pure (braced texts)

def elementEncoders : List (PyValue rt.Float) → Nat → List (Encoder (List Char))
  | [], _ => []
  | value :: rest, depth => encodeValue value depth :: elementEncoders rest depth

def memberEncoders : List (String × PyValue rt.Float) → Nat →
    List (String × Encoder (List Char))
  | [], _ => []
  | (key, value) :: rest, depth =>
      (normalizeString rt key, encodeValue value depth) :: memberEncoders rest depth

end

/-- `canonical_json_bytes`. -/
def canonicalJsonBytes (value : PyValue rt.Float) : Except CanonicalizationError (List UInt8) :=
  match encodeValue rt limits value 0 0 with
  | .error e => .error e
  | .ok (text, _) =>
      if limits.maxBytes < (encodeUtf8 text).length then
        .error ⟨"MH_CANONICAL_SIZE", "the canonical value exceeds the UTF-8 byte limit"⟩
      else .ok (encodeUtf8 text)

/-- `canonical_json_text`: the text whose bytes `canonical_json_bytes` gives. -/
def canonicalJsonText (value : PyValue rt.Float) : Except CanonicalizationError (List Char) :=
  match encodeValue rt limits value 0 0 with
  | .error e => .error e
  | .ok (text, _) =>
      if limits.maxBytes < (encodeUtf8 text).length then
        .error ⟨"MH_CANONICAL_SIZE", "the canonical value exceeds the UTF-8 byte limit"⟩
      else .ok text

end Encoder

/-! ## What the encoder writes -/

section Specification

variable (rt : CanonicalRuntime)

mutual

/-- The canonical text of a value, whatever the limits. -/
def canonicalText : PyValue rt.Float → List Char
  | .none => "null".toList
  | .bool flag => if flag then "true".toList else "false".toList
  | .int value => intText value
  | .float value =>
      match rt.integral value with
      | some n => intText n
      | none => rt.floatText value
  | .str text => quoteString rt text
  | .datetime stamp => quoteString rt (String.ofList (timestampText stamp))
  | .list members => bracketed (elementTexts members)
  | .dict members => braced (((memberTexts members).insertionSort fun a b => keyLe a b).map
      fun m => memberText rt m.1 m.2)

def elementTexts : List (PyValue rt.Float) → List (List Char)
  | [] => []
  | value :: rest => canonicalText value :: elementTexts rest

def memberTexts : List (String × PyValue rt.Float) → List (String × List Char)
  | [] => []
  | (key, value) :: rest => (normalizeString rt key, canonicalText value) :: memberTexts rest

end

/-- A value every part of which has a canonical text. -/
inductive WellFormed : PyValue rt.Float → Prop where
  | none : WellFormed .none
  | bool (flag : Bool) : WellFormed (.bool flag)
  | int (value : Int) (h : inCanonicalRange value = true) : WellFormed (.int value)
  | float (value : rt.Float) (hfinite : rt.isFinite value = true)
      (hrange : ∀ n ∈ rt.integral value, inCanonicalRange n = true) : WellFormed (.float value)
  | str (text : String) : WellFormed (.str text)
  | datetime (stamp : Stamp) : WellFormed (.datetime stamp)
  | list (members : List (PyValue rt.Float)) (h : ∀ x ∈ members, WellFormed x) :
      WellFormed (.list members)
  | dict (members : List (String × PyValue rt.Float))
      (hkeys : (members.map fun m => normalizeString rt m.1).Nodup)
      (h : ∀ m ∈ members, WellFormed m.2) : WellFormed (.dict members)

end Specification

namespace PyValue

variable {Float : Type}

mutual

/-- How many values there are in a value. -/
def nodes : PyValue Float → Nat
  | .list members => 1 + elementNodes members
  | .dict members => 1 + memberNodes members
  | _ => 1

def elementNodes : List (PyValue Float) → Nat
  | [] => 0
  | value :: rest => value.nodes + elementNodes rest

def memberNodes : List (String × PyValue Float) → Nat
  | [] => 0
  | (_, value) :: rest => value.nodes + memberNodes rest

end

mutual

/-- How deep the containers of a value are nested. -/
def height : PyValue Float → Nat
  | .list members => 1 + elementHeight members
  | .dict members => 1 + memberHeight members
  | _ => 0

def elementHeight : List (PyValue Float) → Nat
  | [] => 0
  | value :: rest => max value.height (elementHeight rest)

def memberHeight : List (String × PyValue Float) → Nat
  | [] => 0
  | (_, value) :: rest => max value.height (memberHeight rest)

end

/-- The nodes of a list are those of its elements, summed. -/
theorem elementNodes_eq (xs : List (PyValue Float)) : elementNodes xs = (xs.map nodes).sum := by
  induction xs with
  | nil => rfl
  | cons x xs ih => rw [elementNodes, ih, List.map_cons, List.sum_cons]

/-- The nodes of an object are those of its values, summed. -/
theorem memberNodes_eq (ms : List (String × PyValue Float)) :
    memberNodes ms = (ms.map fun m => m.2.nodes).sum := by
  induction ms with
  | nil => rfl
  | cons m ms ih => rw [memberNodes, ih, List.map_cons, List.sum_cons]

/-- No element of a list is higher than the list of them. -/
theorem height_le_of_mem_list {xs : List (PyValue Float)} {x : PyValue Float} (h : x ∈ xs) :
    x.height ≤ elementHeight xs := by
  induction xs with
  | nil => cases h
  | cons y ys ih =>
      rw [elementHeight]
      rcases List.mem_cons.mp h with rfl | h
      · exact le_max_left _ _
      · exact (ih h).trans (le_max_right _ _)

/-- No value of an object is higher than its members. -/
theorem height_le_of_mem_dict {ms : List (String × PyValue Float)} {m : String × PyValue Float}
    (h : m ∈ ms) : m.2.height ≤ memberHeight ms := by
  induction ms with
  | nil => cases h
  | cons y ys ih =>
      rw [memberHeight]
      rcases List.mem_cons.mp h with rfl | h
      · exact le_max_left _ _
      · exact (ih h).trans (le_max_right _ _)

/-- A list is as high as its highest element. -/
theorem elementHeight_le {xs : List (PyValue Float)} {bound : Nat}
    (h : ∀ x ∈ xs, x.height ≤ bound) : elementHeight xs ≤ bound := by
  induction xs with
  | nil => exact Nat.zero_le _
  | cons x xs ih =>
      rw [elementHeight]
      exact max_le (h x List.mem_cons_self) (ih fun y hy => h y (List.mem_cons_of_mem _ hy))

/-- An object is as high as its highest value. -/
theorem memberHeight_le {ms : List (String × PyValue Float)} {bound : Nat}
    (h : ∀ m ∈ ms, m.2.height ≤ bound) : memberHeight ms ≤ bound := by
  induction ms with
  | nil => exact Nat.zero_le _
  | cons m ms ih =>
      rw [memberHeight]
      exact max_le (h m List.mem_cons_self) (ih fun y hy => h y (List.mem_cons_of_mem _ hy))

end PyValue

section Spec

variable {rt : CanonicalRuntime} {limits : CanonicalLimits}

/-- The texts of the elements are the texts of each. -/
theorem elementTexts_eq (xs : List (PyValue rt.Float)) :
    elementTexts rt xs = xs.map (canonicalText rt) := by
  induction xs with
  | nil => rfl
  | cons x xs ih => rw [elementTexts, ih, List.map_cons]

theorem memberTexts_eq (ms : List (String × PyValue rt.Float)) :
    memberTexts rt ms = ms.map fun m => (normalizeString rt m.1, canonicalText rt m.2) := by
  induction ms with
  | nil => rfl
  | cons m ms ih => rw [memberTexts, ih, List.map_cons]

/-- The encoders of the elements are those of each, at one depth. -/
theorem elementEncoders_eq (xs : List (PyValue rt.Float)) (depth : Nat) :
    elementEncoders rt limits xs depth = xs.map fun x => encodeValue rt limits x depth := by
  induction xs with
  | nil => rfl
  | cons x xs ih => rw [elementEncoders, ih, List.map_cons]

/-- The encoders of the members come with their normalized keys, at one depth. -/
theorem memberEncoders_eq (ms : List (String × PyValue rt.Float)) (depth : Nat) :
    memberEncoders rt limits ms depth =
      ms.map fun m => (normalizeString rt m.1, encodeValue rt limits m.2 depth) := by
  induction ms with
  | nil => rfl
  | cons m ms ih => rw [memberEncoders, ih, List.map_cons]

/-- The members of an object under their normalized keys, in order. -/
def sortedMembers (rt : CanonicalRuntime) (ms : List (String × PyValue rt.Float)) :
    List (String × PyValue rt.Float) :=
  (ms.map fun m => (normalizeString rt m.1, m.2)).insertionSort fun a b => keyLe a b

/-- Sorting the members of an object under their normalized keys loses none of them. -/
theorem sortedMembers_perm (ms : List (String × PyValue rt.Float)) :
    (sortedMembers rt ms).Perm (ms.map fun m => (normalizeString rt m.1, m.2)) :=
  List.perm_insertionSort _ _

/-- Sorting by key goes before or after what is done to the values. -/
theorem map_sortedMembers {α β : Type} (f : PyValue rt.Float → α) (g : String × α → β)
    (ms : List (String × PyValue rt.Float)) :
    ((ms.map fun m => (normalizeString rt m.1, f m.2)).insertionSort fun a b => keyLe a b).map g =
      (sortedMembers rt ms).map fun m => g (m.1, f m.2) := by
  have hsort := List.map_insertionSort (fun a b => keyLe a b = true) (fun a b => keyLe a b = true)
    (fun m : String × PyValue rt.Float => (m.1, f m.2))
    (ms.map fun m => (normalizeString rt m.1, m.2)) (fun _ _ _ _ => Iff.rfl)
  rw [List.map_map] at hsort
  unfold sortedMembers
  rw [show (ms.map fun m => (normalizeString rt m.1, f m.2)) = ms.map
    ((fun m : String × PyValue rt.Float => (m.1, f m.2)) ∘
      fun m => (normalizeString rt m.1, m.2)) from rfl, ← hsort, List.map_map]
  rfl

/-- The text of an object lists its members in the order of their normalized keys. -/
theorem canonicalText_dict (ms : List (String × PyValue rt.Float)) :
    canonicalText rt (.dict ms) =
      braced ((sortedMembers rt ms).map fun m => memberText rt m.1 (canonicalText rt m.2)) := by
  rw [canonicalText, memberTexts_eq, map_sortedMembers (canonicalText rt)
    fun m => memberText rt m.1 m.2]

/-- An object and its sorted members have the same number of nodes. -/
theorem nodes_dict (ms : List (String × PyValue rt.Float)) :
    (PyValue.dict ms).nodes = 1 + ((sortedMembers rt ms).map fun m => m.2.nodes).sum := by
  rw [PyValue.nodes, PyValue.memberNodes_eq]
  have hperm := ((@sortedMembers_perm rt ms).map fun m => m.2.nodes).sum_nat
  rw [hperm, List.map_map]
  rfl

/-! ### Running the members -/

/-- Encoders that each succeed within the bound succeed one after another within it, and the texts
and the costs add up. -/
theorem runEncoders_of {α : Type} {xs : List α} {encoder : α → Encoder (List Char)}
    (text : α → List Char) (cost : α → Nat) {bound : Nat}
    (h : ∀ x ∈ xs, ∀ c, c + cost x ≤ bound → encoder x c = .ok (text x, c + cost x)) :
    ∀ c, c + (xs.map cost).sum ≤ bound →
      runEncoders (xs.map encoder) c = .ok (xs.map text, c + (xs.map cost).sum) := by
  induction xs with
  | nil => exact fun c _ => rfl
  | cons x xs ih =>
      intro c hc
      rw [List.map_cons, List.sum_cons] at hc
      have hx := h x List.mem_cons_self c (by omega)
      have hxs := ih (fun y hy => h y (List.mem_cons_of_mem _ hy)) (c + cost x) (by omega)
      rw [List.map_cons, List.map_cons, List.map_cons, List.sum_cons, ← Nat.add_assoc]
      show (encoder x c >>= fun r => runEncoders (xs.map encoder) r.2 >>= fun rs =>
        Except.ok (r.1 :: rs.1, rs.2)) = _
      rw [hx]
      show (runEncoders (xs.map encoder) (c + cost x) >>= fun rs =>
        Except.ok (text x :: rs.1, rs.2)) = _
      rw [hxs]
      rfl

/-- What a sequence of encoders returned was returned by each of them in turn. -/
theorem runEncoders_ok {α : Type} {xs : List α} {encoder : α → Encoder (List Char)}
    (Q : α → Prop) (text : α → List Char) (cost : α → Nat)
    (h : ∀ x ∈ xs, ∀ c t c', encoder x c = .ok (t, c') → Q x ∧ t = text x ∧ c' = c + cost x)
    {c c' : Nat} {ts : List (List Char)} (hrun : runEncoders (xs.map encoder) c = .ok (ts, c')) :
    (∀ x ∈ xs, Q x) ∧ ts = xs.map text ∧ c' = c + (xs.map cost).sum := by
  induction xs generalizing c c' ts with
  | nil =>
      obtain ⟨rfl, rfl⟩ := Prod.mk.inj (Except.ok.inj hrun)
      exact ⟨nofun, rfl, rfl⟩
  | cons x xs ih =>
      have hrun : (encoder x c >>= fun r => runEncoders (xs.map encoder) r.2 >>= fun rs =>
        Except.ok (r.1 :: rs.1, rs.2)) = .ok (ts, c') := hrun
      obtain ⟨⟨t, c1⟩, hx, hrun⟩ := Except.bind_eq_ok_iff.mp hrun
      obtain ⟨⟨rest, c2⟩, hxs, hrun⟩ := Except.bind_eq_ok_iff.mp hrun
      obtain ⟨rfl, rfl⟩ := Prod.mk.inj (Except.ok.inj hrun)
      obtain ⟨hq, rfl, rfl⟩ := h x List.mem_cons_self _ _ _ hx
      obtain ⟨hqs, rfl, rfl⟩ := ih (fun y hy => h y (List.mem_cons_of_mem _ hy)) hxs
      refine ⟨fun y hy => ?_, rfl, ?_⟩
      · rcases List.mem_cons.mp hy with rfl | hy
        · exact hq
        · exact hqs y hy
      · rw [List.map_cons, List.sum_cons, Nat.add_assoc]

/-! ### The encoder -/

/-- A node is counted before it is encoded, and one too many fails. -/
theorem countNode_bind {α : Type} (f : Encoder α) (c : Nat) :
    (countNode limits >>= fun _ => f) c =
      if limits.maxNodes < c + 1 then
        .error ⟨"MH_CANONICAL_NODES", "the canonical value exceeds the node limit"⟩
      else f (c + 1) := by
  show (countNode limits c >>= fun r => f r.2) = _
  unfold countNode
  split <;> rfl

/-- A container that is too deep fails before its elements are encoded. -/
theorem checkDepth_bind {α : Type} (f : Encoder α) (depth c : Nat) :
    (checkDepth limits depth >>= fun _ => f) c =
      if limits.maxDepth < depth then
        .error ⟨"MH_CANONICAL_DEPTH", "the canonical value exceeds the container-depth limit"⟩
      else f c := by
  show (checkDepth limits depth c >>= fun r => f r.2) = _
  unfold checkDepth
  split <;> rfl

/-- Keys that collide after normalization fail before any member is encoded. -/
theorem checkKeys_bind {α : Type} (f : Encoder α) (keys : List String) (c : Nat) :
    (checkKeys keys >>= fun _ => f) c =
      if keys.Nodup then f c
      else .error ⟨"MH_CANONICAL_KEY_COLLISION",
        "object keys collide after canonical normalization"⟩ := by
  show (checkKeys keys c >>= fun r => f r.2) = _
  unfold checkKeys
  split <;> rfl

/-- The encoding of a list, past its own checks. -/
theorem encodeValue_list (xs : List (PyValue rt.Float)) (depth c : Nat) :
    encodeValue rt limits (.list xs) depth c =
      if limits.maxNodes < c + 1 then
        .error ⟨"MH_CANONICAL_NODES", "the canonical value exceeds the node limit"⟩
      else if limits.maxDepth < depth + 1 then
        .error ⟨"MH_CANONICAL_DEPTH", "the canonical value exceeds the container-depth limit"⟩
      else runEncoders (xs.map fun x => encodeValue rt limits x (depth + 1)) (c + 1) >>= fun r =>
        .ok (bracketed r.1, r.2) := by
  rw [encodeValue, countNode_bind, checkDepth_bind, elementEncoders_eq]
  rfl

/-- The encoding of an object, past its own checks. -/
theorem encodeValue_dict (ms : List (String × PyValue rt.Float)) (depth c : Nat) :
    encodeValue rt limits (.dict ms) depth c =
      if limits.maxNodes < c + 1 then
        .error ⟨"MH_CANONICAL_NODES", "the canonical value exceeds the node limit"⟩
      else if limits.maxDepth < depth + 1 then
        .error ⟨"MH_CANONICAL_DEPTH", "the canonical value exceeds the container-depth limit"⟩
      else if (ms.map fun m => normalizeString rt m.1).Nodup then
        runEncoders ((sortedMembers rt ms).map fun m =>
          memberEncoder rt m.1 (encodeValue rt limits m.2 (depth + 1))) (c + 1) >>= fun r =>
            .ok (braced r.1, r.2)
      else .error ⟨"MH_CANONICAL_KEY_COLLISION",
        "object keys collide after canonical normalization"⟩ := by
  rw [encodeValue, countNode_bind, checkDepth_bind, checkKeys_bind, memberEncoders_eq, List.map_map,
    map_sortedMembers (fun v => encodeValue rt limits v (depth + 1)) fun m =>
      memberEncoder rt m.1 m.2]
  rfl

/-- One member encoder. -/
theorem memberEncoder_eq (encoder : Encoder (List Char)) (key : String) (c : Nat) :
    memberEncoder rt key encoder c = (encoder c >>= fun r => .ok (memberText rt key r.1, r.2)) := rfl

/-- An integer is written exactly if it is in the canonical range. -/
theorem serializeInteger_ok {value : Int} {text : List Char} :
    serializeInteger value = .ok text ↔ inCanonicalRange value = true ∧ text = intText value := by
  unfold serializeInteger
  rw [Except.ite_eq_ok_iff, eq_comm (a := text)]

/-- A float is written exactly if it is finite and, where it is integral, in the canonical range. -/
theorem serializeFloat_ok {value : rt.Float} {text : List Char} :
    serializeFloat rt value = .ok text ↔
      (rt.isFinite value = true ∧ ∀ n ∈ rt.integral value, inCanonicalRange n = true) ∧
        text = canonicalText rt (.float value) := by
  unfold serializeFloat canonicalText
  cases hfinite : rt.isFinite value with
  | false => exact ⟨nofun, fun h => nomatch h.1.1⟩
  | true =>
      rw [if_neg (by decide)]
      cases rt.integral value with
      | none =>
          rw [Except.ok.injEq, eq_comm]
          exact ⟨fun h => ⟨⟨rfl, nofun⟩, h⟩, fun h => h.2⟩
      | some n =>
          rw [serializeInteger_ok]
          constructor
          · rintro ⟨hrange, htext⟩
            refine ⟨⟨rfl, fun m hm => ?_⟩, htext⟩
            rw [← Option.some.inj hm]
            exact hrange
          · exact fun h => ⟨h.1.2 n rfl, h.2⟩

/-- Counting a scalar and writing it. -/
theorem countNode_lift {c c' : Nat} {x : Except CanonicalizationError (List Char)}
    {text : List Char} :
    (countNode limits >>= fun _ => (liftM x : Encoder (List Char))) c = .ok (text, c') ↔
      c + 1 ≤ limits.maxNodes ∧ x = .ok text ∧ c' = c + 1 := by
  rw [countNode_bind]
  split
  · rename_i hlt
    exact ⟨nofun, fun h => absurd h.1 (by omega)⟩
  · rename_i hle
    cases x with
    | error e => exact ⟨nofun, fun h => nomatch h.2.1⟩
    | ok t =>
        show (Except.ok (t, c + 1) = Except.ok (text, c')) ↔ _
        rw [Except.ok.injEq, Prod.mk.injEq, Except.ok.injEq, eq_comm (a := c')]
        exact ⟨fun h => ⟨by omega, h⟩, fun h => h.2⟩

/-- Counting a node costs one, and succeeds exactly below the bound. -/
theorem countNode_pure {c c' : Nat} {t text : List Char} :
    (countNode limits >>= fun _ => (pure t : Encoder (List Char))) c = .ok (text, c') ↔
      c + 1 ≤ limits.maxNodes ∧ t = text ∧ c' = c + 1 := by
  have h := @countNode_lift limits c c' (.ok t) text
  rw [Except.ok.injEq] at h
  exact h

/-- **A well-formed value within the limits** is written, and is written as its canonical text. -/
theorem encodeValue_of_wellFormed {v : PyValue rt.Float} (h : WellFormed rt v) :
    ∀ depth c, c + v.nodes ≤ limits.maxNodes → depth + v.height ≤ limits.maxDepth →
      encodeValue rt limits v depth c = .ok (canonicalText rt v, c + v.nodes) := by
  induction h with
  | none => exact fun depth c hc _ => countNode_pure.mpr ⟨hc, rfl, rfl⟩
  | bool flag => exact fun depth c hc _ => countNode_pure.mpr ⟨hc, rfl, rfl⟩
  | int value hrange =>
      exact fun depth c hc _ =>
        countNode_lift.mpr ⟨hc, serializeInteger_ok.mpr ⟨hrange, rfl⟩, rfl⟩
  | float value hfinite hrange =>
      exact fun depth c hc _ =>
        countNode_lift.mpr ⟨hc, serializeFloat_ok.mpr ⟨⟨hfinite, hrange⟩, rfl⟩, rfl⟩
  | str text => exact fun depth c hc _ => countNode_pure.mpr ⟨hc, rfl, rfl⟩
  | datetime stamp => exact fun depth c hc _ => countNode_pure.mpr ⟨hc, rfl, rfl⟩
  | list members _ ih =>
      intro depth c hc hdepth
      rw [PyValue.nodes, PyValue.elementNodes_eq] at hc ⊢
      rw [PyValue.height] at hdepth
      -- Each element is within the depth of the list and is encoded with the nodes that are left.
      have hmember : ∀ x ∈ members, ∀ c', c' + x.nodes ≤ limits.maxNodes →
          encodeValue rt limits x (depth + 1) c' = .ok (canonicalText rt x, c' + x.nodes) := by
        intro x hx c' hc'
        have := PyValue.height_le_of_mem_list hx
        exact ih x hx (depth + 1) c' hc' (by omega)
      rw [encodeValue_list, if_neg (by omega), if_neg (by omega),
        runEncoders_of (canonicalText rt) PyValue.nodes hmember (c + 1) (by omega), canonicalText,
        elementTexts_eq, ← Nat.add_assoc]
      rfl
  | dict members hkeys _ ih =>
      intro depth c hc hdepth
      rw [nodes_dict] at hc ⊢
      rw [PyValue.height] at hdepth
      -- The members are encoded in sorted order, which does not change their number of nodes.
      have hmember : ∀ m ∈ sortedMembers rt members, ∀ c', c' + m.2.nodes ≤ limits.maxNodes →
          memberEncoder rt m.1 (encodeValue rt limits m.2 (depth + 1)) c' =
            .ok (memberText rt m.1 (canonicalText rt m.2), c' + m.2.nodes) := by
        intro m hm c' hc'
        obtain ⟨m', hm', rfl⟩ := List.mem_map.mp ((sortedMembers_perm members).mem_iff.mp hm)
        have := PyValue.height_le_of_mem_dict hm'
        rw [memberEncoder_eq, ih m' hm' (depth + 1) c' hc' (by omega)]
        rfl
      rw [encodeValue_dict, if_neg (by omega), if_neg (by omega), if_pos hkeys,
        runEncoders_of (fun m => memberText rt m.1 (canonicalText rt m.2)) (fun m => m.2.nodes)
          hmember (c + 1) (by omega), canonicalText_dict, ← Nat.add_assoc]
      rfl

/-- **What was written** was well formed, and its text and its cost depend on it alone. -/
theorem encodeValue_ok {v : PyValue rt.Float} : ∀ {depth c c' : Nat} {text : List Char},
    encodeValue rt limits v depth c = .ok (text, c') →
      WellFormed rt v ∧ text = canonicalText rt v ∧ c' = c + v.nodes := by
  induction v using PyValue.induct with
  | none =>
      intro depth c c' text h
      obtain ⟨-, htext, rfl⟩ := countNode_pure.mp h
      exact ⟨.none, htext.symm, rfl⟩
  | bool flag =>
      intro depth c c' text h
      obtain ⟨-, htext, rfl⟩ := countNode_pure.mp h
      exact ⟨.bool flag, htext.symm, rfl⟩
  | int value =>
      intro depth c c' text h
      obtain ⟨-, htext, rfl⟩ := countNode_lift.mp h
      obtain ⟨hrange, rfl⟩ := serializeInteger_ok.mp htext
      exact ⟨.int value hrange, rfl, rfl⟩
  | float value =>
      intro depth c c' text h
      obtain ⟨-, htext, rfl⟩ := countNode_lift.mp h
      obtain ⟨⟨hfinite, hrange⟩, rfl⟩ := serializeFloat_ok.mp htext
      exact ⟨.float value hfinite hrange, rfl, rfl⟩
  | str text =>
      intro depth c c' text' h
      obtain ⟨-, htext, rfl⟩ := countNode_pure.mp h
      exact ⟨.str text, htext.symm, rfl⟩
  | datetime stamp =>
      intro depth c c' text h
      obtain ⟨-, htext, rfl⟩ := countNode_pure.mp h
      exact ⟨.datetime stamp, htext.symm, rfl⟩
  -- For a container the texts and the node counts of its parts add up over the run.
  | list members ih =>
      intro depth c c' text h
      rw [encodeValue_list] at h
      split at h
      · cases h
      · split at h
        · cases h
        · obtain ⟨⟨texts, c1⟩, hrun, h⟩ := Except.bind_eq_ok_iff.mp h
          obtain ⟨rfl, rfl⟩ := Prod.mk.inj (Except.ok.inj h)
          obtain ⟨hall, htexts, hc⟩ := runEncoders_ok (WellFormed rt) (canonicalText rt)
            PyValue.nodes (fun x hx c t c' hx' => ih x hx hx') hrun
          refine ⟨.list members hall, ?_, ?_⟩
          · rw [htexts, canonicalText, elementTexts_eq]
          · rw [hc, PyValue.nodes, PyValue.elementNodes_eq, Nat.add_assoc]
  | dict members ih =>
      intro depth c c' text h
      rw [encodeValue_dict] at h
      split at h
      · cases h
      · split at h
        · cases h
        · split at h
          · rename_i hkeys
            -- Each member is encoded under its normalized key, so the induction hypothesis of the
            -- original member applies.
            have hmember : ∀ m ∈ sortedMembers rt members, ∀ c t c',
                memberEncoder rt m.1 (encodeValue rt limits m.2 (depth + 1)) c = .ok (t, c') →
                  WellFormed rt m.2 ∧ t = memberText rt m.1 (canonicalText rt m.2) ∧
                    c' = c + m.2.nodes := by
              intro m hm c t c' hencode
              obtain ⟨m', hm', rfl⟩ := List.mem_map.mp ((sortedMembers_perm members).mem_iff.mp hm)
              rw [memberEncoder_eq] at hencode
              obtain ⟨⟨t1, c2⟩, hvalue, hencode⟩ := Except.bind_eq_ok_iff.mp hencode
              obtain ⟨rfl, rfl⟩ := Prod.mk.inj (Except.ok.inj hencode)
              obtain ⟨hwell, rfl, rfl⟩ := ih m' hm' hvalue
              exact ⟨hwell, rfl, rfl⟩
            obtain ⟨⟨texts, c1⟩, hrun, h⟩ := Except.bind_eq_ok_iff.mp h
            obtain ⟨rfl, rfl⟩ := Prod.mk.inj (Except.ok.inj h)
            obtain ⟨hall, htexts, hc⟩ := runEncoders_ok (fun m => WellFormed rt m.2)
              (fun m => memberText rt m.1 (canonicalText rt m.2)) (fun m => m.2.nodes) hmember hrun
            refine ⟨.dict members hkeys fun m hm => ?_, ?_, ?_⟩
            · exact hall (normalizeString rt m.1, m.2)
                ((sortedMembers_perm members).mem_iff.mpr (List.mem_map_of_mem hm))
            · rw [htexts, canonicalText_dict]
            · rw [hc, nodes_dict, Nat.add_assoc]
          · cases h

/-- Encoders that each stay within a bound stay within it one after the other. -/
theorem runEncoders_within {α : Type} {xs : List α} {encoder : α → Encoder (List Char)}
    (Q : α → Prop) {bound : Nat}
    (h : ∀ x ∈ xs, ∀ c t c', encoder x c = .ok (t, c') → c' ≤ bound ∧ Q x) {c c' : Nat}
    {ts : List (List Char)} (hc : c ≤ bound)
    (hrun : runEncoders (xs.map encoder) c = .ok (ts, c')) : c' ≤ bound ∧ ∀ x ∈ xs, Q x := by
  induction xs generalizing c c' ts with
  | nil =>
      obtain ⟨-, rfl⟩ := Prod.mk.inj (Except.ok.inj hrun)
      exact ⟨hc, nofun⟩
  | cons x xs ih =>
      have hrun : (encoder x c >>= fun r => runEncoders (xs.map encoder) r.2 >>= fun rs =>
        Except.ok (r.1 :: rs.1, rs.2)) = .ok (ts, c') := hrun
      obtain ⟨⟨t, c1⟩, hx, hrun⟩ := Except.bind_eq_ok_iff.mp hrun
      obtain ⟨⟨rest, c2⟩, hxs, hrun⟩ := Except.bind_eq_ok_iff.mp hrun
      obtain ⟨-, rfl⟩ := Prod.mk.inj (Except.ok.inj hrun)
      obtain ⟨hle, hq⟩ := h x List.mem_cons_self _ _ _ hx
      obtain ⟨hle', hqs⟩ := ih (fun y hy => h y (List.mem_cons_of_mem _ hy)) hle hxs
      refine ⟨hle', fun y hy => ?_⟩
      rcases List.mem_cons.mp hy with rfl | hy
      · exact hq
      · exact hqs y hy

/-- **What was written is within the limits.** -/
theorem encodeValue_within {v : PyValue rt.Float} : ∀ {depth c c' : Nat} {text : List Char},
    depth ≤ limits.maxDepth → encodeValue rt limits v depth c = .ok (text, c') →
      c' ≤ limits.maxNodes ∧ depth + v.height ≤ limits.maxDepth := by
  induction v using PyValue.induct with
  | none =>
      intro depth c c' text hdepth h
      obtain ⟨hc, -, rfl⟩ := countNode_pure.mp h
      exact ⟨hc, hdepth⟩
  | bool flag =>
      intro depth c c' text hdepth h
      obtain ⟨hc, -, rfl⟩ := countNode_pure.mp h
      exact ⟨hc, hdepth⟩
  | int value =>
      intro depth c c' text hdepth h
      obtain ⟨hc, -, rfl⟩ := countNode_lift.mp h
      exact ⟨hc, hdepth⟩
  | float value =>
      intro depth c c' text hdepth h
      obtain ⟨hc, -, rfl⟩ := countNode_lift.mp h
      exact ⟨hc, hdepth⟩
  | str text =>
      intro depth c c' text' hdepth h
      obtain ⟨hc, -, rfl⟩ := countNode_pure.mp h
      exact ⟨hc, hdepth⟩
  | datetime stamp =>
      intro depth c c' text hdepth h
      obtain ⟨hc, -, rfl⟩ := countNode_pure.mp h
      exact ⟨hc, hdepth⟩
  -- The depth is checked before the elements are entered, so it bounds each of them.
  | list members ih =>
      intro depth c c' text hdepth h
      rw [encodeValue_list] at h
      split at h
      · cases h
      · rename_i hnodes
        split at h
        · cases h
        · rename_i hdeeper
          obtain ⟨⟨texts, c1⟩, hrun, h⟩ := Except.bind_eq_ok_iff.mp h
          obtain ⟨-, rfl⟩ := Prod.mk.inj (Except.ok.inj h)
          obtain ⟨hle, hall⟩ := runEncoders_within
            (fun x => depth + 1 + x.height ≤ limits.maxDepth)
            (fun x hx c t c' hx' => ih x hx (Nat.le_of_not_lt hdeeper) hx')
            (Nat.le_of_not_lt hnodes) hrun
          refine ⟨hle, ?_⟩
          have hheight : PyValue.elementHeight members ≤ limits.maxDepth - (depth + 1) :=
            PyValue.elementHeight_le fun x hx => by
              have := hall x hx
              omega
          rw [PyValue.height]
          omega
  | dict members ih =>
      intro depth c c' text hdepth h
      rw [encodeValue_dict] at h
      split at h
      · cases h
      · rename_i hnodes
        split at h
        · cases h
        · rename_i hdeeper
          split at h
          · obtain ⟨⟨texts, c1⟩, hrun, h⟩ := Except.bind_eq_ok_iff.mp h
            obtain ⟨-, rfl⟩ := Prod.mk.inj (Except.ok.inj h)
            -- The key is written in front of the value and is no node of its own.
            have hmember : ∀ m ∈ sortedMembers rt members, ∀ c t c',
                memberEncoder rt m.1 (encodeValue rt limits m.2 (depth + 1)) c = .ok (t, c') →
                  c' ≤ limits.maxNodes ∧ depth + 1 + m.2.height ≤ limits.maxDepth := by
              intro m hm c t c' hencode
              obtain ⟨m', hm', rfl⟩ := List.mem_map.mp ((sortedMembers_perm members).mem_iff.mp hm)
              rw [memberEncoder_eq] at hencode
              obtain ⟨⟨t1, c2⟩, hvalue, hencode⟩ := Except.bind_eq_ok_iff.mp hencode
              obtain ⟨-, rfl⟩ := Prod.mk.inj (Except.ok.inj hencode)
              exact ih m' hm' (Nat.le_of_not_lt hdeeper) hvalue
            obtain ⟨hle, hall⟩ := runEncoders_within
              (fun m => depth + 1 + m.2.height ≤ limits.maxDepth) hmember
              (Nat.le_of_not_lt hnodes) hrun
            refine ⟨hle, ?_⟩
            have hheight : PyValue.memberHeight members ≤ limits.maxDepth - (depth + 1) :=
              PyValue.memberHeight_le fun m hm => by
                have hle : depth + 1 + m.2.height ≤ limits.maxDepth :=
                  hall (normalizeString rt m.1, m.2)
                    ((sortedMembers_perm members).mem_iff.mpr (List.mem_map_of_mem hm))
                omega
            rw [PyValue.height]
            omega
          · cases h

/-- **The encoder accepts** the well-formed values within its limits, and writes their text. -/
theorem canonicalJsonBytes_eq_ok_iff {v : PyValue rt.Float} {bytes : List UInt8} :
    canonicalJsonBytes rt limits v = .ok bytes ↔
      (WellFormed rt v ∧ v.nodes ≤ limits.maxNodes ∧ v.height ≤ limits.maxDepth ∧
        (encodeUtf8 (canonicalText rt v)).length ≤ limits.maxBytes) ∧
      bytes = encodeUtf8 (canonicalText rt v) := by
  unfold canonicalJsonBytes
  constructor
  · intro h
    split at h
    · cases h
    · rename_i text nodes hencode
      obtain ⟨hwell, rfl, rfl⟩ := encodeValue_ok hencode
      obtain ⟨hnodes, hheight⟩ := encodeValue_within (Nat.zero_le _) hencode
      rw [Nat.zero_add] at hnodes hheight
      split at h
      · cases h
      · rename_i hbytes
        exact ⟨⟨hwell, hnodes, hheight, Nat.le_of_not_lt hbytes⟩, (Except.ok.inj h).symm⟩
  · rintro ⟨⟨hwell, hnodes, hheight, hbytes⟩, rfl⟩
    rw [encodeValue_of_wellFormed hwell 0 0 (by omega) (by omega)]
    exact if_neg (Nat.not_lt.mpr hbytes)

/-! ### The size of an object -/

theorem encodeUtf8_append (a b : List Char) : encodeUtf8 (a ++ b) = encodeUtf8 a ++ encodeUtf8 b :=
  List.flatMap_append

/-- How many bytes a member of an object takes. -/
def memberSize (rt : CanonicalRuntime) (m : String × PyValue rt.Float) : Nat :=
  (encodeUtf8 (memberText rt (normalizeString rt m.1) (canonicalText rt m.2))).length

/-- An object takes a byte for each member and one more, besides its members. -/
theorem length_canonicalText_dict {ms : List (String × PyValue rt.Float)} (h : ms ≠ []) :
    (encodeUtf8 (canonicalText rt (.dict ms))).length =
      1 + (ms.map fun m => memberSize rt m + 1).sum := by
  have hsum := ((@sortedMembers_perm rt ms).map fun m =>
    (encodeUtf8 (memberText rt m.1 (canonicalText rt m.2))).length + 1).sum_nat
  rw [List.map_map] at hsum
  have hne : sortedMembers rt ms ≠ [] := by
    intro hnil
    have hlength := (@sortedMembers_perm rt ms).length_eq
    rw [hnil, List.length_map] at hlength
    exact h (List.length_eq_zero_iff.mp hlength.symm)
  show _ = 1 + (ms.map ((fun m : String × PyValue rt.Float =>
    (encodeUtf8 (memberText rt m.1 (canonicalText rt m.2))).length + 1) ∘
      fun m => (normalizeString rt m.1, m.2))).sum
  rw [← hsum, canonicalText_dict]
  generalize sortedMembers rt ms = sorted at hne
  cases sorted with
  | nil => exact absurd rfl hne
  | cons first rest =>
      rw [List.map_cons, braced, intercalate_cons_eq, List.cons_append, List.append_assoc]
      -- every member after the first has a comma before it
      have hrest : ∀ texts : List (List Char),
          (encodeUtf8 (texts.flatMap ([','] ++ ·))).length =
            (texts.map fun text => (encodeUtf8 text).length + 1).sum := by
        intro texts
        induction texts with
        | nil => rfl
        | cons text texts ih =>
            rw [List.flatMap_cons, encodeUtf8_append, encodeUtf8_append, List.length_append,
              List.length_append, ih, List.map_cons, List.sum_cons]
            have hcomma : (encodeUtf8 [',']).length = 1 := rfl
            omega
      have hopen : (encodeUtf8 ['\x7b']).length = 1 := rfl
      have hclose : (encodeUtf8 ['\x7d']).length = 1 := rfl
      rw [← List.singleton_append, encodeUtf8_append, encodeUtf8_append, encodeUtf8_append,
        List.length_append, List.length_append, List.length_append, hrest, List.map_map,
        List.map_cons, List.sum_cons]
      show _ + (_ + ((rest.map fun m =>
        (encodeUtf8 (memberText rt m.1 (canonicalText rt m.2))).length + 1).sum + _)) = _
      omega

end Spec

/-! ## Plain values -/

section Plain

variable {rt : CanonicalRuntime} {limits : CanonicalLimits}

/-- **A well-formed value within the limits has its canonical text.** -/
theorem canonicalJsonText_of_wellFormed {v : PyValue rt.Float} (h : WellFormed rt v)
    (hnodes : v.nodes ≤ limits.maxNodes) (hheight : v.height ≤ limits.maxDepth)
    (hbytes : (encodeUtf8 (canonicalText rt v)).length ≤ limits.maxBytes) :
    canonicalJsonText rt limits v = .ok (canonicalText rt v) := by
  unfold canonicalJsonText
  rw [encodeValue_of_wellFormed h 0 0 (by omega) (by omega)]
  exact if_neg (Nat.not_lt.mpr hbytes)

/-- An ASCII text has as many bytes as characters. -/
theorem length_encodeUtf8_ascii {text : List Char} (h : ∀ c ∈ text, c.toNat < 128) :
    (encodeUtf8 text).length = text.length := by
  induction text with
  | nil => rfl
  | cons c text ih =>
      have hc : c.utf8Size = 1 := Char.utf8Size_eq_one_iff.mpr (Nat.le_of_lt_succ (h c List.mem_cons_self))
      have hrest := ih fun d hd => h d (List.mem_cons_of_mem _ hd)
      unfold encodeUtf8 at hrest ⊢
      rw [List.flatMap_cons, List.length_append, String.length_utf8EncodeChar, hc, hrest,
        List.length_cons, Nat.add_comm]

/-- A text without carriage returns is left as it is. -/
theorem normalizeLines_of_notMem {text : List Char} (h : '\r' ∉ text) : normalizeLines text = text := by
  induction text with
  | nil => rfl
  | cons c text ih =>
      rw [List.mem_cons, not_or] at h
      rw [normalizeLines.eq_3 _ _ (fun _ hc _ => h.1 hc.symm) (fun hc => h.1 hc.symm), ih h.2]

/-- Text that normalization leaves alone. -/
def IsAsciiText (text : List Char) : Prop := ∀ c ∈ text, c.toNat < 128 ∧ c ≠ '\r'

/-- An ASCII text without carriage returns is in normal form. -/
theorem normalizeString_ascii {text : String} (h : IsAsciiText text.toList) :
    normalizeString rt text = text := by
  have hlines : normalizeLines text.toList = text.toList :=
    normalizeLines_of_notMem fun hmem => (h _ hmem).2 rfl
  unfold normalizeString
  rw [hlines, String.ofList_toList]
  exact rt.nfc_ascii text fun c hc => (h c hc).1

/-- A string of ASCII characters is quoted as it stands, since composition leaves it alone. -/
theorem quoteString_ascii {text : String} (h : IsAsciiText text.toList) :
    quoteString rt text = quote text.toList := by rw [quoteString, normalizeString_ascii h]

/-- **Members under sorted ASCII keys are written as they stand.** -/
theorem sortedMembers_of_ascii {ms : List (String × PyValue rt.Float)}
    (hascii : ∀ m ∈ ms, IsAsciiText m.1.toList) (hsorted : (ms.map Prod.fst).Pairwise (· ≤ ·)) :
    sortedMembers rt ms = ms := by
  have hmap : ms.map (fun m => (normalizeString rt m.1, m.2)) = ms := by
    refine (List.map_congr_left fun m hm => ?_).trans ms.map_id
    rw [normalizeString_ascii (hascii m hm)]
    rfl
  unfold sortedMembers
  rw [hmap]
  refine List.Pairwise.insertionSort_eq ((List.pairwise_map.mp hsorted).imp fun hle => ?_)
  exact decide_eq_true hle

end Plain

/-- A canonical integer has nineteen digits at most. -/
theorem length_intText {n : Nat} (h : n ≤ maxCanonicalInt) : (intText n).length ≤ 19 := by
  have hnonneg : ¬ (n : Int) < 0 := by omega
  unfold intText
  rw [if_neg hnonneg, Int.natAbs_natCast]
  refine (Nat.length_toDigits_le_iff (by decide) (by decide)).mpr (Nat.lt_of_le_of_lt h ?_)
  decide

/-- A lowercase hex digest. -/
def isSha256Hex (digest : List Char) : Bool :=
  digest.length = 64 && digest.all fun c => ('0' ≤ c && c ≤ '9') || ('a' ≤ c && c ≤ 'f')

/-- A hexadecimal digest is quoted without an escape. -/
theorem isPlain_of_isSha256Hex {digest : List Char} (h : isSha256Hex digest = true) :
    IsPlain digest := by
  intro c hc
  have hhex : ∀ n < 128, (('0' ≤ Char.ofNat n && Char.ofNat n ≤ '9') ||
      ('a' ≤ Char.ofNat n && Char.ofNat n ≤ 'f')) = true →
        escape (Char.ofNat n) = [Char.ofNat n] := by decide
  simp only [isSha256Hex, Bool.and_eq_true, List.all_eq_true] at h
  have hdigit := h.2 c hc
  have hsmall : c.toNat < 128 := by
    simp only [Bool.or_eq_true, Bool.and_eq_true, decide_eq_true_eq] at hdigit
    have hnine : ('9').toNat = 57 := rfl
    have hf : ('f').toNat = 102 := rfl
    rcases hdigit with ⟨-, hle⟩ | ⟨-, hle⟩
    · have : c.toNat ≤ 57 := hle
      omega
    · have : c.toNat ≤ 102 := hle
      omega
  have hplain := hhex c.toNat hsmall
  rw [Char.ofNat_toNat] at hplain
  exact hplain hdigit

end Milhouse
