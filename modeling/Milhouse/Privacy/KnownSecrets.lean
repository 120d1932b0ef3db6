import Mathlib.Data.List.Dedup
import Milhouse.Core.Canonical
import Milhouse.Lib.Radix
import Milhouse.Lib.Settling
import Milhouse.Lib.Text
import Milhouse.Privacy.Secrets

/-!
# Milhouse — replacing known secrets

The redactor keeps the registered values, their canonical decompositions and what these look like
when they are written in other ways. One pass replaces all of them by a marker; passes are repeated
until one changes nothing, at most `MAX_KNOWN_SECRETS + 1` times. Unicode normalization, the keyed
digest and the redaction layers before and after the loop are parameters.

* `KnownSecrets.init` is the constructor, `replaceKnownSecrets` one pass;
* `redactPath` and `redact` are the two loops;
* **`le_length_of_mem_secretVariants`** — no way of writing a secret is shorter than the secret.
-/

namespace Milhouse.Redact

open Mapped Spans Settling Text

/-- `unicodedata.normalize` with the two forms that are used. -/
structure UnicodeForms where
  nfc : List Char → List Char
  nfd : List Char → List Char

/-- What the forms promise: composing again changes nothing, and no composed text gets shorter by
decomposing it. -/
structure UnicodeForms.Documented (forms : UnicodeForms) : Prop where
  nfc_nfc : ∀ text, forms.nfc (forms.nfc text) = forms.nfc text
  length_nfd : ∀ text, forms.nfc text = text →
    (Utf8.encode text).length ≤ (Utf8.encode (forms.nfd text)).length

/-- `_SECRET_MARKER`. -/
def secretMarker : List Char := "[mh:s]".toList

/-- `_PATH_MARKER`. -/
def pathMarker : List Char := "[mh:p]".toList

def maxKnownSecrets : Nat := 128

def minKnownSecretBytes : Nat := 8

def maxKnownSecretBytes : Nat := 4096

/-! ## The registered values -/

def isControl (c : Char) : Bool := c.toNat < 0x20 || c.toNat = 0x7F

/-- `_validate_known_secret`. -/
def validateKnownSecret (forms : UnicodeForms) (value : List CodePoint) :
    Except PrivacyError (List Char) :=
  match scalars value with
  | none => .error ⟨"MH_PRIVACY_SECRET_UNICODE",
      "known redaction value contains unsupported Unicode"⟩
  | some text =>
      let normalized := forms.nfc text
      let length := (Utf8.encode normalized).length
      if ¬(minKnownSecretBytes ≤ length ∧ length ≤ maxKnownSecretBytes) then
        .error ⟨"MH_PRIVACY_SECRET_LENGTH",
          "known redaction value is outside the credential byte bounds"⟩
      else if normalized.any isControl then
        .error ⟨"MH_PRIVACY_SECRET_CONTROL",
          "known redaction value contains unsupported controls"⟩
      else .ok normalized

/-- `html.escape(value, quote=True)`. -/
def htmlEscape (value : List Char) : List Char :=
  value.flatMap fun c =>
    if c = '&' then "&amp;".toList
    else if c = '<' then "&lt;".toList
    else if c = '>' then "&gt;".toList
    else if c = '"' then "&quot;".toList
    else if c.toNat = 39 then "&#x27;".toList
    else [c]

/-- One `\uXXXX` escape. -/
def jsonUnit (n : Nat) : List Char :=
  ['\\', 'u', Nat.digitChar (n / 4096), Nat.digitChar (n / 256 % 16), Nat.digitChar (n / 16 % 16),
    Nat.digitChar (n % 16)]

/-- One character of `json.dumps(value, ensure_ascii=True)`. -/
def jsonEscapeChar (c : Char) : List Char :=
  if c = '"' then ['\\', '"']
  else if c = '\\' then ['\\', '\\']
  else if c = '\n' then ['\\', 'n']
  else if c = '\r' then ['\\', 'r']
  else if c = '\t' then ['\\', 't']
  else if c.toNat = 8 then ['\\', 'b']
  else if c.toNat = 12 then ['\\', 'f']
  else if 0x20 ≤ c.toNat ∧ c.toNat ≤ 0x7E then [c]
  else if c.toNat < 0x10000 then jsonUnit c.toNat
  else jsonUnit (0xD800 + (c.toNat - 0x10000) / 1024) ++
    jsonUnit (0xDC00 + (c.toNat - 0x10000) % 1024)

/-- `base64.b64encode` in an alphabet, with its padding. -/
def base64Padded (alphabet : List Char) (bytes : List UInt8) : List Char :=
  base64Unpadded alphabet bytes ++ List.replicate (base64Padding bytes) '='

/-- `_secret_variants`. -/
def secretVariants (value : List Char) : List (List Char) :=
  let encoded := Utf8.encode value
  [value, base64Padded standardAlphabet encoded, base64Unpadded standardAlphabet encoded,
    base64Padded urlsafeAlphabet encoded, base64Unpadded urlsafeAlphabet encoded,
    htmlEscape value, value.flatMap jsonEscapeChar].filter (· ≠ [])

/-- `sorted(values, key=lambda item: (-len(item), item))`. -/
def sortedByLength {α : Type} [LT α] [DecidableEq α] [DecidableLT α] (values : List (List α)) :
    List (List α) :=
  values.insertionSort fun a b => b.length < a.length ∨ (a.length = b.length ∧ ¬b < a)

/-- What the redactor keeps of the registered values. -/
structure KnownSecrets where
  knownSecrets : List (List Char)
  knownSecretBytes : List (List UInt8)
  secretVariants : List (List Char)
  deriving DecidableEq

/-- `LayeredRedactor.__init__`, for the registered values. -/
def KnownSecrets.init (forms : UnicodeForms) (knownSecrets : List (List CodePoint)) :
    Except PrivacyError KnownSecrets :=
  if maxKnownSecrets < knownSecrets.length then
    .error ⟨"MH_PRIVACY_SECRET_SET", "known redaction value set is invalid or too large"⟩
  else do
    let normalized ← knownSecrets.mapM (validateKnownSecret forms)
    if ¬normalized.Nodup then
      .error ⟨"MH_PRIVACY_SECRET_DUPLICATE", "known redaction value set contains duplicates"⟩
    else
      let detectionValues :=
        sortedByLength (normalized.flatMap fun value => [value, forms.nfd value]).dedup
      .ok
        { knownSecrets := detectionValues
          knownSecretBytes := sortedByLength (detectionValues.map Utf8.encode)
          secretVariants := sortedByLength (detectionValues.flatMap Redact.secretVariants).dedup }

/-! ## One pass -/

/-- A text that is being redacted, and what was replaced in it so far. -/
structure Redaction where
  text : List Char
  counts : Counts

/-- Replace parts of the text, from the last to the first. -/
def replaceSpans (spans : List Span) (state : Redaction) : Redaction :=
  if spans = [] then state
  else
    { text := replaceBack (fun _ => secretMarker) spans state.text
      counts := state.counts.increment "secret" spans.length }

/-- Replace one way of writing a secret. -/
def replaceVariant (state : Redaction) (variant : List Char) : Redaction :=
  let occurrences := (Find.positions variant variant.length state.text).length
  if occurrences = 0 then state
  else
    { text := Find.replaceAll variant secretMarker state.text
      counts := state.counts.increment "secret" occurrences }

/-- `_replace_known_secrets`, as both loops call it: no marker is protected. -/
def replaceKnownSecrets (html : HtmlEntities) (known : KnownSecrets) (state : Redaction) :
    Redaction :=
  let state := replaceSpans (crossEncodedSecretSpans html known.knownSecrets state.text) state
  let state := replaceSpans (base64EncodedSecretSpans state.text known.knownSecretBytes) state
  known.secretVariants.foldl replaceVariant state

/-! ## How long the written variants are -/

theorem length_le_length_sextets (bytes : List UInt8) : bytes.length ≤ (sextets bytes).length := by
  fun_induction sextets bytes with
  | case1 a b c rest ih =>
      simp only [List.length_cons]
      omega
  | case2 a b => exact Nat.le_succ 2
  | case3 a => exact Nat.le_succ 1
  | case4 => exact Nat.le_refl 0

theorem utf8Size_le_htmlEscape (c : Char) :
    (c.utf8Size : Nat) ≤ (Utf8.encode (htmlEscape [c])).length := by
  have hfour := Char.utf8Size_le_four c
  unfold htmlEscape
  rw [List.flatMap_singleton]
  split
  · exact Nat.le_trans hfour (by decide)
  · split
    · exact Nat.le_trans hfour (by decide)
    · split
      · exact Nat.le_trans hfour (by decide)
      · split
        · exact Nat.le_trans hfour (by decide)
        · split
          · exact Nat.le_trans hfour (by decide)
          · rw [Utf8.encode, List.flatMap_singleton, String.length_utf8EncodeChar]

/-- Only characters of one byte are escaped by two characters. -/
theorem utf8Size_le_jsonEscapeChar (c : Char) :
    c.utf8Size ≤ (Utf8.encode (jsonEscapeChar c)).length := by
  have hfour := Char.utf8Size_le_four c
  have hunit : ∀ n rest, 4 ≤ (Utf8.encode (jsonUnit n ++ rest)).length := by
    intro n rest
    apply Nat.le_trans _ (Utf8.length_le_length_encode _)
    rw [List.length_append]
    exact Nat.le_trans (by decide : 4 ≤ 6) (Nat.le_add_right 6 _)
  have hsmall : ∀ d : Char, c.toNat < 128 → c.utf8Size ≤ (Utf8.encode ['\\', d]).length := by
    intro d hc
    have hone : c.utf8Size = 1 := Char.utf8Size_eq_one_iff.mpr (by
      show c.toNat ≤ 127
      omega)
    rw [hone]
    exact Nat.le_trans (by decide : 1 ≤ 2) (Utf8.length_le_length_encode ['\\', d])
  unfold jsonEscapeChar
  split
  · rename_i h
    exact hsmall _ (h ▸ by decide)
  · split
    · rename_i h
      exact hsmall _ (h ▸ by decide)
    · split
      · rename_i h
        exact hsmall _ (h ▸ by decide)
      · split
        · rename_i h
          exact hsmall _ (h ▸ by decide)
        · split
          · rename_i h
            exact hsmall _ (h ▸ by decide)
          · split
            · exact hsmall _ (by omega)
            · split
              · exact hsmall _ (by omega)
              · split
                · rw [Utf8.encode, List.flatMap_singleton, String.length_utf8EncodeChar]
                · split
                  · have h := hunit c.toNat []
                    rw [List.append_nil] at h
                    exact Nat.le_trans hfour h
                  · exact Nat.le_trans hfour (hunit _ _)

/-- **No way of writing a secret** takes fewer bytes than the secret. -/
theorem le_length_of_mem_secretVariants {value variant : List Char}
    (h : variant ∈ secretVariants value) :
    (Utf8.encode value).length ≤ (Utf8.encode variant).length := by
  have hbase64 : ∀ (alphabet padding : List Char), (Utf8.encode value).length ≤
      (Utf8.encode (base64Unpadded alphabet (Utf8.encode value) ++ padding)).length := by
    intro alphabet padding
    have hbytes := length_le_length_sextets (Utf8.encode value)
    have hchars := Utf8.length_le_length_encode
      (base64Unpadded alphabet (Utf8.encode value) ++ padding)
    rw [List.length_append, base64Unpadded, List.length_map] at hchars
    unfold base64Unpadded
    omega
  have hunpadded : ∀ alphabet : List Char, (Utf8.encode value).length ≤
      (Utf8.encode (base64Unpadded alphabet (Utf8.encode value))).length := by
    intro alphabet
    have hnil := hbase64 alphabet []
    rwa [List.append_nil] at hnil
  have hhtml := Utf8.length_encode_le_flatMap utf8Size_le_htmlEscape value
  simp only [htmlEscape, List.flatMap_singleton] at hhtml
  have hmem := (List.mem_filter.mp h).1
  simp only [List.mem_cons, List.not_mem_nil, or_false] at hmem
  rcases hmem with rfl | rfl | rfl | rfl | rfl | rfl | rfl
  · exact Nat.le_refl _
  · exact hbase64 _ _
  · exact hunpadded _
  · exact hbase64 _ _
  · exact hunpadded _
  · exact hhtml
  · exact Utf8.length_encode_le_flatMap utf8Size_le_jsonEscapeChar value

/-! ## The loops -/

/-- A `Pseudonymizer`. -/
structure Pseudonymizer where
  key : List UInt8
  epoch : Nat
  key_length : key.length = 32
  epoch_pos : 1 ≤ epoch
  epoch_le : epoch ≤ 2147483647

/-- `_KIND_PATTERN`. -/
def isKind : List Char → Bool
  | [] => false
  | c :: rest => ('a' ≤ c && c ≤ 'z') && rest.length ≤ 31 &&
      rest.all fun d => ('a' ≤ d && d ≤ 'z') || isAsciiDigit d || d = '_' || d = '-'

section Paths

variable (forms : UnicodeForms) (hmac : List UInt8 → List UInt8 → List UInt8)

/-- The bytes of a text that is pseudonymized. -/
def pseudonymInput (value : List Char) : Except PrivacyError (List UInt8) :=
  let encoded := Utf8.encode (forms.nfc (normalizeLines value))
  if encoded = [] then .error ⟨"MH_PRIVACY_INPUT_EMPTY", "input must not be empty"⟩
  else if 1048576 < encoded.length then
    .error ⟨"MH_PRIVACY_INPUT_LARGE", "input exceeds the privacy byte bound"⟩
  else .ok encoded

/-- `epoch.to_bytes(4, "big")`. -/
def epochBytes (epoch : Nat) : List UInt8 :=
  [UInt8.ofNat (epoch / 16777216), UInt8.ofNat (epoch / 65536), UInt8.ofNat (epoch / 256),
    UInt8.ofNat epoch]

/-- `Pseudonymizer.pseudonymize`. -/
def Pseudonymizer.pseudonymize (pseudonymizer : Pseudonymizer) (kind value : List Char) :
    Except PrivacyError (List Char) :=
  if ¬isKind kind then .error ⟨"MH_PRIVACY_KIND", "pseudonym kind is invalid"⟩
  else do
    let valueBytes ← pseudonymInput forms value
    let digest := (hmac pseudonymizer.key (Utf8.encode "milhouse-pseudonym-v1\x00".toList ++
      epochBytes pseudonymizer.epoch ++ Utf8.encode kind ++ [0] ++ valueBytes)).take 16
    .ok ("mh_ps1_e".toList ++ Nat.toDigits 10 pseudonymizer.epoch ++ ['_'] ++ kind ++ ['_'] ++
      Radix.base32 digest)

/-- `_validate_text` with the bounds of a local path. -/
def validateLocalPath (value : List CodePoint) : Except PrivacyError (List Char) :=
  match scalars value with
  | none => .error ⟨"MH_PRIVACY_PATH", "input contains unsupported Unicode"⟩
  | some text =>
      let normalized := forms.nfc text
      let encoded := Utf8.encode normalized
      if encoded = [] ∨ 4096 < encoded.length then
        .error ⟨"MH_PRIVACY_PATH", "input is empty or exceeds its byte bound"⟩
      else if normalized.any isControl then
        .error ⟨"MH_PRIVACY_PATH", "input contains unsafe control characters"⟩
      else .ok normalized

/-- `sanitize_local_path`. -/
def sanitizeLocalPath (pseudonymizer : Pseudonymizer) (value : List CodePoint) :
    Except PrivacyError (List Char) := do
  let normalized ← validateLocalPath forms value
  let token ← pseudonymizer.pseudonymize forms hmac "path".toList
    (normalized.map fun c => if c = '\\' then '/' else c)
  .ok ("local-path:".toList ++ token)

/-- `LayeredRedactor.redact_path`. -/
def redactPath (html : HtmlEntities) (known : KnownSecrets) (pseudonymizer : Pseudonymizer)
    (value : List CodePoint) : Except PrivacyError (RedactionResult (List Char)) := do
  let token ← sanitizeLocalPath forms hmac pseudonymizer value
  match settle (replaceKnownSecrets html known) (·.text) (maxKnownSecrets + 1)
      ⟨token, [("path", 1)]⟩ with
  | none => .error ⟨"MH_PRIVACY_REDACT_INVARIANT",
      "known redaction values did not reach a stable path output"⟩
  | some state =>
      .ok ⟨if state.counts.map (·.1) = ["path"] then state.text else pathMarker, state.counts⟩

end Paths

/-- The layers of `_redact` before and after its final loop. -/
structure Layers where
  before : List CodePoint → Except PrivacyError Redaction
  after : List CodePoint → Redaction → Except PrivacyError (RedactionResult (List Char))

/-- `LayeredRedactor._redact`. -/
def redact (layers : Layers) (html : HtmlEntities) (known : KnownSecrets) (value : List CodePoint) :
    Except PrivacyError (RedactionResult (List Char)) := do
  let restored ← layers.before value
  match settle (replaceKnownSecrets html known) (·.text) (maxKnownSecrets + 1) restored with
  | none => .error ⟨"MH_PRIVACY_REDACT_INVARIANT",
      "known redaction values did not reach a stable output"⟩
  | some state => layers.after value state

end Milhouse.Redact
