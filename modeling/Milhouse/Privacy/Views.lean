import Mathlib.Data.Nat.Digits.Lemmas
import Milhouse.Lib.Mapped
import Milhouse.Lib.Utf8

/-!
# Milhouse — the redactor's decoders

The redactor looks for a known secret in the text and in what the text decodes to: percent escapes,
JSON escapes, HTML references, base64 and hex tokens, and pairs of them. Each decoder reads a view
and cuts its text into pieces. The table of named HTML references is a parameter.

* `scan` runs a decoder that looks at what stands at the cursor, `findIter` a regular expression that
  also looks at the character before;
* **`Decoder.tiles`** — the pieces of every decoder cover the text;
* **`decodeAll_wellFormed`** — so every composition of decoders makes a well-formed view.
-/

namespace Milhouse.Redact

open Mapped

/-! ## Characters -/

/-- `_is_ascii_hex`. -/
def isAsciiHex (c : Char) : Bool :=
  ('0' ≤ c && c ≤ '9') || ('A' ≤ c && c ≤ 'F') || ('a' ≤ c && c ≤ 'f')

def isAsciiDigit (c : Char) : Bool := '0' ≤ c && c ≤ '9'

def isAsciiLetter (c : Char) : Bool := ('A' ≤ c && c ≤ 'Z') || ('a' ≤ c && c ≤ 'z')

def isBase64Char (c : Char) : Bool :=
  isAsciiLetter c || isAsciiDigit c || c = '+' || c = '/' || c = '_' || c = '-'

/-- The blanks of a MIME body. -/
def isBlank (c : Char) : Bool := c = ' ' || c = '\t' || c = '\r' || c = '\n'

/-- The value of a hex digit. -/
def hexDigit (c : Char) : Nat :=
  if isAsciiDigit c then c.toNat - 48 else if 'a' ≤ c then c.toNat - 87 else c.toNat - 55

/-- `int(text, base)`. -/
def numeral (base : Nat) (text : List Char) : Nat :=
  text.foldl (fun n c => base * n + hexDigit c) 0

/-! ## UTF-8 -/

/-- `_utf8_unit_length`. -/
def utf8UnitLength (first : UInt8) : Nat :=
  if first.toNat ≤ 0x7F then 1
  else if 0xC2 ≤ first.toNat ∧ first.toNat ≤ 0xDF then 2
  else if 0xE0 ≤ first.toNat ∧ first.toNat ≤ 0xEF then 3
  else if 0xF0 ≤ first.toNat ∧ first.toNat ≤ 0xF4 then 4
  else 0

/-- The number that the bytes of one unit stand for. -/
def unitNumber : List UInt8 → Nat
  | [a] => a.toNat
  | [a, b] => a.toNat % 32 * 64 + b.toNat % 64
  | [a, b, c] => a.toNat % 16 * 4096 + b.toNat % 64 * 64 + c.toNat % 64
  | [a, b, c, d] =>
      a.toNat % 8 * 262144 + b.toNat % 64 * 4096 + c.toNat % 64 * 64 + d.toNat % 64
  | _ => 0

/-- `bytes.decode("utf-8")` of one unit: only the shortest encoding of a character decodes. -/
def decodeUnit (bytes : List UInt8) : Option Char :=
  let c := Char.ofNat (unitNumber bytes)
  if String.utf8EncodeChar c = bytes then some c else none

/-- `bytes.decode("utf-8")`. -/
def decodeUtf8 : Nat → List UInt8 → Option (List Char)
  | _, [] => some []
  | 0, _ => none
  | fuel + 1, first :: rest =>
      let length := utf8UnitLength first
      if length = 0 then none
      else match decodeUnit ((first :: rest).take length) with
        | none => none
        | some c => (decodeUtf8 fuel ((first :: rest).drop length)).map (c :: ·)

/-- A byte and the characters that stand for it. -/
structure EncodedByte where
  byte : UInt8
  source : List Char

/-- `_extend_mapped_utf8_units`: valid units are decoded, and the bytes of others stay as they are
written. -/
def extendMappedUtf8Units : Nat → List EncodedByte → List (Piece Char)
  | 0, _ => []
  | _, [] => []
  | fuel + 1, unit :: rest =>
      let length := utf8UnitLength unit.byte
      let encoded := (unit :: rest).take length
      let decoded := if length ≠ 0 ∧ length ≤ (unit :: rest).length
        then decodeUnit (encoded.map (·.byte)) else none
      match decoded with
      | some c => ⟨(encoded.flatMap (·.source)).length, [c]⟩ ::
          extendMappedUtf8Units fuel ((unit :: rest).drop length)
      | none => copied unit.source ++ extendMappedUtf8Units fuel rest

/-! ## Decoders that look at the cursor -/

/-- How far the cursor moves over some pieces. -/
def consumed (pieces : List (Piece Char)) : Nat := (pieces.map (·.consumed)).sum

/-- The loop of a decoder: what it makes of the text at the cursor, and on behind it. -/
def scan (step : List Char → List (Piece Char)) : Nat → List Char → List (Piece Char)
  | 0, _ => []
  | _, [] => []
  | fuel + 1, c :: rest =>
      let pieces := step (c :: rest)
      pieces ++ scan step fuel ((c :: rest).drop (consumed pieces))

/-- The percent escapes in a row, as bytes. -/
def percentRun : List Char → List EncodedByte
  | '%' :: a :: b :: rest =>
      if isAsciiHex a && isAsciiHex b then
        ⟨UInt8.ofNat (numeral 16 [a, b]), ['%', a, b]⟩ :: percentRun rest
      else []
  | _ => []

/-- `_next_percent_text_view` at the cursor. -/
def percentStep (plusAsSpace : Bool) (text : List Char) : List (Piece Char) :=
  match percentRun text with
  | [] => match text with
    | [] => []
    | c :: _ => [⟨1, [if plusAsSpace && c = '+' then ' ' else c]⟩]
  | units => extendMappedUtf8Units units.length units

/-- `_JSON_SIMPLE_ESCAPES`. -/
def jsonSimpleEscape : Char → Option Char
  | '"' => some '"'
  | '\\' => some '\\'
  | '/' => some '/'
  | 'b' => some (Char.ofNat 8)
  | 'f' => some (Char.ofNat 12)
  | 'n' => some '\n'
  | 'r' => some '\r'
  | 't' => some '\t'
  | _ => none

/-- The low half of a surrogate pair, if its escape stands here. -/
def lowSurrogate : List Char → Option Nat
  | '\\' :: 'u' :: e :: f :: g :: h :: _ =>
      if [e, f, g, h].all isAsciiHex then
        let low := numeral 16 [e, f, g, h]
        if 0xDC00 ≤ low ∧ low ≤ 0xDFFF then some low else none
      else none
  | _ => none

/-- The character of a `\uXXXX` escape or of a pair of them, with its length. -/
def jsonUnicodeEscape : List Char → Option (Piece Char)
  | a :: b :: c :: d :: rest =>
      if [a, b, c, d].all isAsciiHex then
        let codepoint := numeral 16 [a, b, c, d]
        if 0xD800 ≤ codepoint ∧ codepoint ≤ 0xDBFF then
          (lowSurrogate rest).map fun low =>
            ⟨12, [Char.ofNat (0x10000 + (codepoint - 0xD800) * 1024 + (low - 0xDC00))]⟩
        else if 0xD800 ≤ codepoint ∧ codepoint ≤ 0xDFFF then none
        else some ⟨6, [Char.ofNat codepoint]⟩
      else none
  | _ => none

/-- `_next_json_decoded_view` at the cursor. -/
def jsonStep : List Char → List (Piece Char)
  | '\\' :: escape :: rest =>
      match jsonSimpleEscape escape with
      | some c => [⟨2, [c]⟩]
      | none =>
          if escape = 'u' then [(jsonUnicodeEscape rest).getD ⟨1, ['\\']⟩] else [⟨1, ['\\']⟩]
  | c :: _ => [⟨1, [c]⟩]
  | [] => []

/-! ### HTML references -/

/-- `;?`. -/
def semicolon : List Char → List Char
  | ';' :: _ => [';']
  | _ => []

/-- A run of characters of a length between two bounds, whole, and an optional semicolon. -/
def boundedRun (p : Char → Bool) (low high : Nat) (text : List Char) : Option (List Char) :=
  let run := text.takeWhile p
  if low ≤ run.length ∧ run.length ≤ high then some (run ++ semicolon (text.drop run.length))
  else none

/-- `_HTML_ENTITY.match` at the cursor. -/
def htmlEntity : List Char → Option (List Char)
  | '&' :: '#' :: c :: rest =>
      if c = 'x' || c = 'X' then (boundedRun isAsciiHex 1 6 rest).map ('&' :: '#' :: c :: ·)
      else (boundedRun isAsciiDigit 1 7 (c :: rest)).map ('&' :: '#' :: ·)
  | '&' :: c :: rest =>
      if isAsciiLetter c then
        (boundedRun (fun d => isAsciiLetter d || isAsciiDigit d) 1 31 rest).map ('&' :: c :: ·)
      else none
  | _ => none

/-- `html._invalid_charrefs`. -/
def invalidCharrefs (number : Nat) : Option Char :=
  if number = 0 then some (Char.ofNat 0xFFFD)
  else if number = 13 then some '\r'
  else if 0x80 ≤ number ∧ number ≤ 0x9F then
    some (Char.ofNat ([0x20AC, 0x81, 0x201A, 0x192, 0x201E, 0x2026, 0x2020, 0x2021, 0x2C6, 0x2030,
      0x160, 0x2039, 0x152, 0x8D, 0x17D, 0x8F, 0x90, 0x2018, 0x2019, 0x201C, 0x201D, 0x2022, 0x2013,
      0x2014, 0x2DC, 0x2122, 0x161, 0x203A, 0x153, 0x9D, 0x17E, 0x178].getD (number - 0x80) 0))
  else none

/-- `html._invalid_codepoints`. -/
def isInvalidCodepoint (number : Nat) : Bool :=
  (1 ≤ number && number ≤ 8) || number = 0xB || (0xE ≤ number && number ≤ 0x1F) ||
    (0x7F ≤ number && number ≤ 0x9F) || (0xFDD0 ≤ number && number ≤ 0xFDEF) ||
    0xFFFE ≤ number % 0x10000

/-- The text of a numeric reference. -/
def numericReference (number : Nat) : List Char :=
  match invalidCharrefs number with
  | some c => [c]
  | none =>
      if (0xD800 ≤ number ∧ number ≤ 0xDFFF) ∨ 0x10FFFF < number then [Char.ofNat 0xFFFD]
      else if isInvalidCodepoint number then []
      else [Char.ofNat number]

/-- `html.entities.html5`. -/
structure HtmlEntities where
  html5 : List Char → Option (List Char)

section Html

variable (html : HtmlEntities)

/-- The text of a named reference: that of its name, or of the longest part of it that is one. -/
def namedReference (name : List Char) : List Char :=
  match html.html5 name with
  | some text => text
  | none =>
      ((List.range name.length).reverse.findSome? fun x =>
        if 1 < x then (html.html5 (name.take x)).map (· ++ name.drop x) else none).getD ('&' :: name)

/-- `html.unescape` of one reference. -/
def unescape : List Char → List Char
  | '&' :: '#' :: c :: rest =>
      if c = 'x' || c = 'X' then numericReference (numeral 16 (rest.takeWhile (· ≠ ';')))
      else numericReference (numeral 10 ((c :: rest).takeWhile (· ≠ ';')))
  | '&' :: name => namedReference html name
  | text => text

/-- `_next_html_decoded_view` at the cursor. -/
def htmlStep (text : List Char) : List (Piece Char) :=
  match text, htmlEntity text with
  | [], _ => []
  | c :: _, none => [⟨1, [c]⟩]
  | c :: _, some entity =>
      if unescape html entity = entity then [⟨1, [c]⟩]
      else [⟨entity.length, unescape html entity⟩]

end Html

/-! ## Decoders of tokens -/

/-- A text cut at the matches of a regular expression. -/
inductive Segment where
  | gap (c : Char)
  | token (text : List Char)

/-- `pattern.finditer`: `match` looks at the character before and at what stands at the cursor. -/
def findIter (pattern : Option Char → List Char → Option (List Char)) :
    Nat → Option Char → List Char → List Segment
  | 0, _, _ => []
  | _, _, [] => []
  | fuel + 1, before, c :: rest =>
      match pattern before (c :: rest) with
      | some token => .token token ::
          findIter pattern fuel token.getLast? ((c :: rest).drop token.length)
      | none => .gap c :: findIter pattern fuel (some c) rest

/-- Where each of the repetitions of `[ \t\r\n]*[A-Za-z0-9+/_-]` ends. -/
def repetitionEnds : Nat → List Char → List Nat
  | _, [] => []
  | position, c :: rest =>
      if isBlank c then repetitionEnds (position + 1) rest
      else if isBase64Char c then (position + 1) :: repetitionEnds (position + 1) rest
      else []

/-- Where each of at most `count` repetitions of `[ \t\r\n]*=` ends. -/
def paddingEnds : Nat → Nat → List Char → List Nat
  | _, 0, _ => []
  | _, _, [] => []
  | position, count + 1, c :: rest =>
      if isBlank c then paddingEnds (position + 1) (count + 1) rest
      else if c = '=' then (position + 1) :: paddingEnds (position + 1) count rest
      else []

/-- `_BASE64_TEXT_TOKEN` at the cursor: the first end, in the order of its backtracking, that no
further character of a token follows. -/
def base64Token (before : Option Char) (text : List Char) : Option (List Char) :=
  match text with
  | [] => none
  | c :: rest =>
      if before.any isBase64Char || !isBase64Char c then none
      else
        let ends := ((repetitionEnds 1 rest).drop 9).reverse.flatMap fun stop =>
          (paddingEnds stop 2 (text.drop stop)).reverse ++ [stop]
        (ends.find? fun stop => !(text.drop stop).head?.any fun d => isBase64Char d || d = '=').map
          text.take

/-- `_HEX_TEXT_TOKEN` at the cursor. -/
def hexToken (before : Option Char) (text : List Char) : Option (List Char) :=
  let run := text.takeWhile isAsciiHex
  if before.any isAsciiHex then none else if 16 ≤ run.length then some run else none

/-- The six bits of a base64 character, of either alphabet. -/
def sextet (c : Char) : Nat :=
  if isAsciiDigit c then c.toNat + 4
  else if 'A' ≤ c ∧ c ≤ 'Z' then c.toNat - 65
  else if 'a' ≤ c ∧ c ≤ 'z' then c.toNat - 71
  else if c = '+' ∨ c = '-' then 62
  else 63

/-- `base64.b64decode` of base64 characters without padding; bits that fill no byte are dropped. -/
def base64Bytes : List Char → List UInt8
  | a :: b :: c :: d :: rest =>
      UInt8.ofNat (sextet a * 4 + sextet b / 16) ::
        UInt8.ofNat (sextet b % 16 * 16 + sextet c / 4) ::
        UInt8.ofNat (sextet c % 4 * 64 + sextet d) :: base64Bytes rest
  | [a, b, c] =>
      [UInt8.ofNat (sextet a * 4 + sextet b / 16), UInt8.ofNat (sextet b % 16 * 16 + sextet c / 4)]
  | [a, b] => [UInt8.ofNat (sextet a * 4 + sextet b / 16)]
  | _ => []

/-- `_decode_base64_text`. -/
def decodeBase64Text (token : List Char) : Option (List Char) :=
  let compact := token.filter fun c => !isBlank c
  let unpadded := (compact.reverse.dropWhile (· = '=')).reverse
  if unpadded.length % 4 = 1 then none
  else decodeUtf8 (base64Bytes unpadded).length (base64Bytes unpadded)

/-- `_replace_mapped_tokens` on one part of the text. -/
def base64Pieces : Segment → List (Piece Char)
  | .gap c => [⟨1, [c]⟩]
  | .token token =>
      match decodeBase64Text token with
      | none => copied token
      | some decoded => [⟨token.length, decoded⟩]

/-- Hex digits in pairs, as bytes. -/
def hexPairs : List Char → List EncodedByte
  | a :: b :: rest => ⟨UInt8.ofNat (numeral 16 [a, b]), [a, b]⟩ :: hexPairs rest
  | _ => []

/-- `_next_hex_text_view` on one part of the text. -/
def hexPieces (nibbleOffset : Nat) : Segment → List (Piece Char)
  | .gap c => [⟨1, [c]⟩]
  | .token token =>
      let start := min nibbleOffset token.length
      let pairedEnd := start + (token.length - start) / 2 * 2
      let units := hexPairs ((token.take pairedEnd).drop start)
      copied (token.take start) ++ extendMappedUtf8Units units.length units ++
        copied (token.drop pairedEnd)

/-! ## The decoders -/

/-- The text decoders of the redactor. -/
inductive Decoder where
  | percent (plusAsSpace : Bool)
  | json
  | html
  | base64
  | hex (nibbleOffset : Nat)
  deriving DecidableEq, Repr

/-- How a decoder cuts a text into pieces. -/
def Decoder.pieces (html : HtmlEntities) : Decoder → List Char → List (Piece Char)
  | .percent plusAsSpace, text => scan (percentStep plusAsSpace) text.length text
  | .json, text => scan jsonStep text.length text
  | .html, text => scan (htmlStep html) text.length text
  | .base64, text => (findIter base64Token text.length none text).flatMap base64Pieces
  | .hex nibbleOffset, text =>
      (findIter hexToken text.length none text).flatMap (hexPieces nibbleOffset)

/-- The next view of a decoder. -/
def Decoder.next (html : HtmlEntities) (view : View Char) (decoder : Decoder) : View Char :=
  view.decode (decoder.pieces html view.text)

/-! ## What a decoder may do -/

/-- A relation between parts of a text and what they decode to, that holds of everything a decoder
decodes. -/
structure PieceRules (html : HtmlEntities) (P : List Char → List Char → Prop) : Prop where
  copied : ∀ c, P [c] [c]
  space : P ['+'] [' ']
  unit : ∀ bytes c source, decodeUnit bytes = some c → 2 * bytes.length ≤ source.length →
    P source [c]
  simpleEscape : ∀ escape c, jsonSimpleEscape escape = some c → P ['\\', escape] [c]
  unicodeEscape : ∀ source c, 6 ≤ source.length → P source [c]
  reference : ∀ text entity, htmlEntity text = some entity → P entity (unescape html entity)
  token : ∀ token decoded, decodeBase64Text token = some decoded → P token decoded

section Tiling

variable {html : HtmlEntities} {P : List Char → List Char → Prop}

/-- Pieces that tile a text consume all of it. -/
theorem consumed_eq {text : List Char} {pieces : List (Piece Char)} (h : Tiles P text pieces) :
    consumed pieces = text.length := by
  induction h with
  | nil => rfl
  | cons source decoded rest pieces hne hP hrest ih =>
      unfold consumed at ih ⊢
      rw [List.map_cons, List.sum_cons, ih, List.length_append]

/-- **A loop whose every step tiles what it consumes** tiles the text. -/
theorem scan_tiles {step : List Char → List (Piece Char)}
    (hstep : ∀ c rest, ∃ source after, c :: rest = source ++ after ∧ source ≠ [] ∧
      Tiles P source (step (c :: rest))) {fuel : Nat} {text : List Char}
    (hfuel : text.length ≤ fuel) : Tiles P text (scan step fuel text) := by
  induction fuel generalizing text with
  | zero =>
      rw [List.length_eq_zero_iff.mp (Nat.le_zero.mp hfuel)]
      exact .nil
  | succ fuel ih =>
      cases text with
      | nil => exact .nil
      | cons c rest =>
          obtain ⟨source, after, heq, hne, htiles⟩ := hstep c rest
          have hpos := List.length_pos_iff.mpr hne
          have hlength := congrArg List.length heq
          rw [List.length_append] at hlength
          rw [scan, consumed_eq htiles]
          have hdrop : (c :: rest).drop source.length = after := by rw [heq, List.drop_left]
          rw [hdrop]
          conv => arg 2; rw [heq]
          exact htiles.append (ih (by omega))

/-- Decoding encoded bytes as UTF-8, where it works and where it does not, tiles their source. -/
theorem extendMappedUtf8Units_tiles (hrules : PieceRules html P) {fuel : Nat}
    {units : List EncodedByte} (hsource : ∀ u ∈ units, 2 ≤ u.source.length)
    (hfuel : units.length ≤ fuel) :
    Tiles P (units.flatMap (·.source)) (extendMappedUtf8Units fuel units) := by
  induction fuel generalizing units with
  | zero =>
      rw [List.length_eq_zero_iff.mp (Nat.le_zero.mp hfuel)]
      exact .nil
  | succ fuel ih =>
      cases units with
      | nil => exact .nil
      | cons unit rest =>
          rw [extendMappedUtf8Units]
          split
          · rename_i c hdecoded
            split at hdecoded
            · rename_i hlength
              -- Every unit is spelled with at least two characters, so a decoded character is
              -- shorter than its spelling.
              have htwo : ∀ us : List EncodedByte, (∀ u ∈ us, 2 ≤ u.source.length) →
                  2 * us.length ≤ (us.flatMap (·.source)).length := by
                intro us hus
                induction us with
                | nil => exact Nat.le_refl _
                | cons u us ihus =>
                    have hu := hus u List.mem_cons_self
                    have hrest := ihus fun v hv => hus v (List.mem_cons_of_mem _ hv)
                    rw [List.flatMap_cons, List.length_append, List.length_cons]
                    omega
              have htaken := htwo ((unit :: rest).take (utf8UnitLength unit.byte))
                fun u hu => hsource u (List.mem_of_mem_take hu)
              have hcount : ((unit :: rest).take (utf8UnitLength unit.byte)).length =
                  utf8UnitLength unit.byte := by
                rw [List.length_take]
                omega
              rw [hcount] at htaken
              have hne : ((unit :: rest).take (utf8UnitLength unit.byte)).flatMap
                  (·.source) ≠ [] := by
                apply List.length_pos_iff.mp
                omega
              have hP := hrules.unit _ c _ hdecoded (by rwa [List.length_map, hcount])
              have hsplit : (unit :: rest).flatMap (·.source) =
                  ((unit :: rest).take (utf8UnitLength unit.byte)).flatMap (·.source) ++
                    ((unit :: rest).drop (utf8UnitLength unit.byte)).flatMap (·.source) := by
                rw [← List.flatMap_append, List.take_append_drop]
              rw [hsplit]
              refine .cons _ _ _ _ hne hP (ih (fun u hu => hsource u (List.mem_of_mem_drop hu)) ?_)
              rw [List.length_drop]
              rw [List.length_cons] at hfuel ⊢
              omega
            · cases hdecoded
          -- A byte that starts no character is copied as it was spelled, and the units after it
          -- are decoded anew.
          · rw [List.flatMap_cons]
            exact (Tiles.copied hrules.copied _).append
              (ih (fun u hu => hsource u (List.mem_cons_of_mem _ hu)) (Nat.le_of_succ_le_succ hfuel))

/-! ### Percent escapes -/

/-- A run of percent escapes is a beginning of the text. -/
theorem percentRun_append (text : List Char) :
    ∃ after, text = (percentRun text).flatMap (·.source) ++ after := by
  fun_induction percentRun text with
  | case1 a b rest hhex ih =>
      obtain ⟨after, hafter⟩ := ih
      refine ⟨after, ?_⟩
      conv_lhs => rw [hafter]
      rfl
  | case2 a b rest hhex => exact ⟨_, rfl⟩
  | case3 text hne => exact ⟨text, rfl⟩

theorem length_of_mem_percentRun {text : List Char} {u : EncodedByte} (h : u ∈ percentRun text) :
    u.source.length = 3 := by
  fun_induction percentRun text with
  | case1 a b rest hhex ih =>
      rcases List.mem_cons.mp h with rfl | h
      · rfl
      · exact ih h
  | case2 a b rest hhex => cases h
  | case3 text hne => cases h

/-- One step of percent decoding tiles a beginning of the text that is not empty. -/
theorem percentStep_tiles (hrules : PieceRules html P) (plusAsSpace : Bool) (c : Char)
    (rest : List Char) : ∃ source after, c :: rest = source ++ after ∧ source ≠ [] ∧
      Tiles P source (percentStep plusAsSpace (c :: rest)) := by
  unfold percentStep
  split
  · refine ⟨[c], rest, rfl, List.cons_ne_nil _ _, ?_⟩
    apply Tiles.single (List.cons_ne_nil _ _)
    split
    · rename_i hplus
      rw [Bool.and_eq_true, decide_eq_true_eq] at hplus
      rw [hplus.2]
      exact hrules.space
    · exact hrules.copied c
  · rename_i units hunits
    obtain ⟨after, hafter⟩ := percentRun_append (c :: rest)
    refine ⟨_, after, hafter, ?_, ?_⟩
    · cases hrun : percentRun (c :: rest) with
      | nil => exact absurd hrun hunits
      | cons u us =>
          have hlength := length_of_mem_percentRun (hrun ▸ List.mem_cons_self : u ∈ _)
          apply List.length_pos_iff.mp
          rw [List.flatMap_cons, List.length_append]
          omega
    · exact extendMappedUtf8Units_tiles hrules
        (fun u hu => by rw [length_of_mem_percentRun hu]; decide) (Nat.le_refl _)

/-! ### JSON escapes -/

/-- A `\uXXXX` escape stands in the text, and is long enough. -/
theorem jsonUnicodeEscape_eq_some {text : List Char} {piece : Piece Char}
    (h : jsonUnicodeEscape text = some piece) :
    6 ≤ piece.consumed ∧ piece.consumed ≤ text.length + 2 ∧ ∃ c, piece.decoded = [c] := by
  unfold jsonUnicodeEscape at h
  split at h
  · rename_i a b c d rest
    split at h
    · dsimp only at h
      split at h
      · obtain ⟨low, hlow, rfl⟩ := Option.map_eq_some_iff.mp h
        refine ⟨Nat.le_add_left 6 6, ?_, _, rfl⟩
        unfold lowSurrogate at hlow
        split at hlow
        · simp only [List.length_cons]
          omega
        · cases hlow
      · split at h
        · cases h
        · obtain rfl := Option.some.inj h
          refine ⟨Nat.le_refl _, ?_, _, rfl⟩
          simp only [List.length_cons]
          omega
    · cases h
  · cases h

/-- So does one step of JSON decoding. -/
theorem jsonStep_tiles (hrules : PieceRules html P) (c : Char) (rest : List Char) :
    ∃ source after, c :: rest = source ++ after ∧ source ≠ [] ∧
      Tiles P source (jsonStep (c :: rest)) := by
  have hraw : ∀ d, Tiles P [d] [⟨1, [d]⟩] := fun d =>
    Tiles.single (List.cons_ne_nil _ _) (hrules.copied d)
  unfold jsonStep
  split
  · rename_i escape after heq
    obtain ⟨rfl, rfl⟩ := List.cons.inj heq
    split
    · rename_i d hsimple
      exact ⟨['\\', escape], after, rfl, List.cons_ne_nil _ _,
        Tiles.single (List.cons_ne_nil _ _) (hrules.simpleEscape escape d hsimple)⟩
    · split
      · rename_i hu
        cases hescape : jsonUnicodeEscape after with
        | none => exact ⟨['\\'], _, rfl, List.cons_ne_nil _ _, hraw _⟩
        | some piece =>
            obtain ⟨hsix, hle, d, hd⟩ := jsonUnicodeEscape_eq_some hescape
            have hlength : (('\\' :: escape :: after).take piece.consumed).length =
                piece.consumed := by
              rw [List.length_take, List.length_cons, List.length_cons]
              omega
            refine ⟨_, _, (List.take_append_drop piece.consumed _).symm, ?_, ?_⟩
            · apply List.length_pos_iff.mp
              omega
            · have htiles := @Tiles.single _ P (('\\' :: escape :: after).take piece.consumed) [d]
                (List.length_pos_iff.mp (by omega)) (hrules.unicodeEscape _ d (by omega))
              rw [hlength, ← hd] at htiles
              exact htiles
      · exact ⟨['\\'], _, rfl, List.cons_ne_nil _ _, hraw _⟩
  · rename_i d after hne heq
    obtain ⟨rfl, rfl⟩ := List.cons.inj heq
    exact ⟨[c], rest, rfl, List.cons_ne_nil _ _, hraw c⟩
  · rename_i heq
    cases heq

/-! ### HTML references -/

theorem semicolon_append (text : List Char) : ∃ after, text = semicolon text ++ after := by
  unfold semicolon
  split
  · exact ⟨_, rfl⟩
  · exact ⟨text, rfl⟩

/-- A bounded run is a beginning of the text of at least the lower length. -/
theorem boundedRun_eq_some {p : Char → Bool} {low high : Nat} {text run : List Char}
    (h : boundedRun p low high text = some run) :
    low ≤ run.length ∧ ∃ after, text = run ++ after := by
  unfold boundedRun at h
  dsimp only at h
  split at h
  · rename_i hlength
    obtain rfl := Option.some.inj h
    obtain ⟨behind, hbehind⟩ := List.takeWhile_prefix (l := text) p
    have hsplit : ∀ front : List Char, front ++ behind = text → text.drop front.length = behind := by
      rintro front rfl
      exact List.drop_left
    have hdrop := hsplit _ hbehind
    obtain ⟨after, hafter⟩ := semicolon_append behind
    rw [hdrop]
    refine ⟨by rw [List.length_append]; omega, after, ?_⟩
    rw [List.append_assoc, ← hafter, hbehind]
  · cases h

/-- A reference stands at the cursor, and has at least three characters. -/
theorem htmlEntity_eq_some {text entity : List Char} (h : htmlEntity text = some entity) :
    3 ≤ entity.length ∧ ∃ after, text = entity ++ after := by
  unfold htmlEntity at h
  split at h
  · split at h
    · obtain ⟨run, hrun, rfl⟩ := Option.map_eq_some_iff.mp h
      obtain ⟨hlow, after, rfl⟩ := boundedRun_eq_some hrun
      refine ⟨?_, after, rfl⟩
      simp only [List.length_cons]
      omega
    · obtain ⟨run, hrun, rfl⟩ := Option.map_eq_some_iff.mp h
      obtain ⟨hlow, after, heq⟩ := boundedRun_eq_some hrun
      refine ⟨?_, after, ?_⟩
      · simp only [List.length_cons]
        omega
      · rw [heq]
        rfl
  · split at h
    · obtain ⟨run, hrun, rfl⟩ := Option.map_eq_some_iff.mp h
      obtain ⟨hlow, after, rfl⟩ := boundedRun_eq_some hrun
      refine ⟨?_, after, rfl⟩
      simp only [List.length_cons]
      omega
    · cases h
  · cases h

/-- And one step of entity decoding. -/
theorem htmlStep_tiles (hrules : PieceRules html P) (c : Char) (rest : List Char) :
    ∃ source after, c :: rest = source ++ after ∧ source ≠ [] ∧
      Tiles P source (htmlStep html (c :: rest)) := by
  have hraw : Tiles P [c] [⟨1, [c]⟩] :=
    Tiles.single (List.cons_ne_nil _ _) (hrules.copied c)
  unfold htmlStep
  cases hentity : htmlEntity (c :: rest) with
  | none => exact ⟨[c], rest, rfl, List.cons_ne_nil _ _, hraw⟩
  | some entity =>
      obtain ⟨hthree, after, hafter⟩ := htmlEntity_eq_some hentity
      dsimp only
      split
      · exact ⟨[c], rest, rfl, List.cons_ne_nil _ _, hraw⟩
      · have hne : entity ≠ [] := List.length_pos_iff.mp (by omega)
        exact ⟨entity, after, hafter, hne, Tiles.single hne (hrules.reference _ _ hentity)⟩

/-! ### Tokens -/

/-- **Cutting a text at its matches** loses nothing. -/
theorem findIter_tiles {pattern : Option Char → List Char → Option (List Char)}
    (hpattern : ∀ before text token, pattern before text = some token →
      token ≠ [] ∧ ∃ after, text = token ++ after)
    {pieces : Segment → List (Piece Char)} (hgap : ∀ c, Tiles P [c] (pieces (.gap c)))
    (htoken : ∀ before text token, pattern before text = some token →
      Tiles P token (pieces (.token token)))
    {fuel : Nat} {before : Option Char} {text : List Char} (hfuel : text.length ≤ fuel) :
    Tiles P text ((findIter pattern fuel before text).flatMap pieces) := by
  induction fuel generalizing before text with
  | zero =>
      rw [List.length_eq_zero_iff.mp (Nat.le_zero.mp hfuel)]
      exact .nil
  | succ fuel ih =>
      cases text with
      | nil => exact .nil
      | cons c rest =>
          rw [findIter]
          split
          · rename_i token hmatch
            obtain ⟨hne, after, hafter⟩ := hpattern _ _ _ hmatch
            have hpos := List.length_pos_iff.mpr hne
            have hlength := congrArg List.length hafter
            rw [List.length_append] at hlength
            have hdrop : (c :: rest).drop token.length = after := by rw [hafter, List.drop_left]
            rw [hdrop, List.flatMap_cons]
            conv => arg 2; rw [hafter]
            exact (htoken _ _ _ hmatch).append (ih (by omega))
          · rw [List.flatMap_cons]
            exact (hgap c).append (ih (Nat.le_of_succ_le_succ hfuel))

theorem repetitionEnds_pos {position : Nat} {text : List Char} {stop : Nat}
    (h : stop ∈ repetitionEnds position text) : position < stop := by
  fun_induction repetitionEnds position text with
  | case1 position => cases h
  | case2 position c rest hblank ih =>
      have hlt := ih h
      omega
  | case3 position c rest hblank hchar ih =>
      rcases List.mem_cons.mp h with rfl | h
      · exact Nat.lt_succ_self _
      · have hlt := ih h
        omega
  | case4 position c rest hblank hchar => cases h

theorem paddingEnds_pos {position count : Nat} {text : List Char} {stop : Nat}
    (h : stop ∈ paddingEnds position count text) : position < stop := by
  fun_induction paddingEnds position count text with
  | case1 => cases h
  | case2 => cases h
  | case3 position c rest count hblank ih =>
      have hlt := ih h
      omega
  | case4 position rest count hblank ih =>
      rcases List.mem_cons.mp h with rfl | h
      · exact Nat.lt_succ_self _
      · have hlt := ih h
        omega
  | case5 => cases h

/-- A Base64 token is a beginning of the text that is not empty. -/
theorem base64Token_eq_some {before : Option Char} {text token : List Char}
    (h : base64Token before text = some token) : token ≠ [] ∧ ∃ after, text = token ++ after := by
  unfold base64Token at h
  split at h
  · cases h
  · rename_i c rest
    split at h
    · cases h
    · obtain ⟨stop, hstop, rfl⟩ := Option.map_eq_some_iff.mp h
      have hpos : 0 < stop := by
        obtain ⟨last, hlast, hmem⟩ := List.mem_flatMap.mp (List.mem_of_find?_eq_some hstop)
        have hrepeat := repetitionEnds_pos (List.mem_of_mem_drop (List.mem_reverse.mp hlast))
        rcases List.mem_append.mp hmem with hmem | hmem
        · have hpadding := paddingEnds_pos (List.mem_reverse.mp hmem)
          omega
        · rw [List.mem_singleton.mp hmem]
          omega
      refine ⟨?_, _, (List.take_append_drop stop _).symm⟩
      apply List.length_pos_iff.mp
      rw [List.length_take, List.length_cons]
      omega

/-- A Base64 token is tiled whether it decodes or not. -/
theorem base64Pieces_tiles (hrules : PieceRules html P) {token : List Char} (hne : token ≠ []) :
    Tiles P token (base64Pieces (.token token)) := by
  unfold base64Pieces
  dsimp only
  split
  · exact Tiles.copied hrules.copied token
  · rename_i decoded hdecoded
    exact Tiles.single hne (hrules.token token decoded hdecoded)

theorem hexToken_eq_some {before : Option Char} {text token : List Char}
    (h : hexToken before text = some token) : token ≠ [] ∧ ∃ after, text = token ++ after := by
  unfold hexToken at h
  dsimp only at h
  split at h
  · cases h
  · split at h
    · rename_i hlength
      obtain rfl := Option.some.inj h
      obtain ⟨after, hafter⟩ := List.takeWhile_prefix (l := text) isAsciiHex
      exact ⟨List.length_pos_iff.mp (by omega), after, hafter.symm⟩
    · cases h

/-- The pairs of an even number of digits have these digits as their source. -/
theorem hexPairs_source {digits : List Char} (h : digits.length % 2 = 0) :
    (hexPairs digits).flatMap (·.source) = digits := by
  fun_induction hexPairs digits with
  | case1 a b rest ih =>
      rw [List.flatMap_cons, ih (by simp only [List.length_cons] at h; omega)]
      rfl
  | case2 digits hne =>
      match digits with
      | [] => rfl
      | [a] => cases h
      | a :: b :: rest => exact absurd rfl (hne a b rest)

theorem length_of_mem_hexPairs {digits : List Char} {u : EncodedByte} (h : u ∈ hexPairs digits) :
    u.source.length = 2 := by
  fun_induction hexPairs digits with
  | case1 a b rest ih =>
      rcases List.mem_cons.mp h with rfl | h
      · rfl
      · exact ih h
  | case2 digits hne => cases h

/-- A hexadecimal token is tiled from either nibble. -/
theorem hexPieces_tiles (hrules : PieceRules html P) (nibbleOffset : Nat) (token : List Char) :
    Tiles P token (hexPieces nibbleOffset (.token token)) := by
  unfold hexPieces
  dsimp only
  generalize hstart : min nibbleOffset token.length = start
  have hle : start ≤ token.length := by omega
  have hparts : token = token.take start ++
      (token.take (start + (token.length - start) / 2 * 2)).drop start ++
        token.drop (start + (token.length - start) / 2 * 2) := by
    have hfirst : token.take start =
        (token.take (start + (token.length - start) / 2 * 2)).take start := by
      rw [List.take_take, Nat.min_eq_left (by omega)]
    rw [hfirst, List.take_append_drop, List.take_append_drop]
  have heven : ((token.take (start + (token.length - start) / 2 * 2)).drop start).length % 2 =
      0 := by
    rw [List.length_drop, List.length_take]
    omega
  have hmiddle := @extendMappedUtf8Units_tiles html P hrules _
    (hexPairs ((token.take (start + (token.length - start) / 2 * 2)).drop start))
    (fun u hu => by rw [length_of_mem_hexPairs hu]) (Nat.le_refl _)
  rw [hexPairs_source heven] at hmiddle
  conv => arg 2; rw [hparts]
  exact ((Tiles.copied hrules.copied _).append hmiddle).append (Tiles.copied hrules.copied _)

/-! ### Every decoder -/

/-- **The pieces of every decoder** cover the text. -/
theorem Decoder.tiles (hrules : PieceRules html P) (decoder : Decoder) (text : List Char) :
    Tiles P text (decoder.pieces html text) := by
  have hgap : ∀ c, Tiles P [c] [⟨1, [c]⟩] := fun c =>
    Tiles.single (List.cons_ne_nil _ _) (hrules.copied c)
  cases decoder with
  | percent plusAsSpace => exact scan_tiles (percentStep_tiles hrules plusAsSpace) (Nat.le_refl _)
  | json => exact scan_tiles (jsonStep_tiles hrules) (Nat.le_refl _)
  | html => exact scan_tiles (htmlStep_tiles hrules) (Nat.le_refl _)
  | base64 =>
      exact findIter_tiles (fun _ _ _ => base64Token_eq_some) hgap
        (fun _ _ _ h => base64Pieces_tiles hrules (base64Token_eq_some h).1) (Nat.le_refl _)
  | hex nibbleOffset =>
      exact findIter_tiles (fun _ _ _ => hexToken_eq_some) hgap
        (fun _ _ token _ => hexPieces_tiles hrules nibbleOffset token) (Nat.le_refl _)

theorem pieceRules_trivial (html : HtmlEntities) : PieceRules html fun _ _ => True :=
  ⟨fun _ => trivial, trivial, fun _ _ _ _ _ => trivial, fun _ _ _ => trivial,
    fun _ _ _ => trivial, fun _ _ _ => trivial, fun _ _ _ => trivial⟩

/-- **Every composition of decoders** makes a well-formed view of the text. -/
theorem decodeAll_wellFormed (html : HtmlEntities) (text : List Char) (decoders : List Decoder) :
    (decoders.foldl (Decoder.next html) (View.identity text)).WellFormed text.length := by
  have hrun : ∀ view : View Char, view.WellFormed text.length →
      (decoders.foldl (Decoder.next html) view).WellFormed text.length := by
    induction decoders with
    | nil => exact fun _ h => h
    | cons decoder decoders ih =>
        intro view h
        exact ih _ (h.decode (decoder.tiles (pieceRules_trivial html) view.text))
  exact hrun _ (View.WellFormed.identity text)

end Tiling

end Milhouse.Redact
