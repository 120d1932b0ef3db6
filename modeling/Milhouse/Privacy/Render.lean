import Milhouse.Core.Canonical
import Milhouse.Lib.Text
import Milhouse.Privacy.Redact

/-!
# Milhouse — untrusted evidence, rendered as data

`renderUntrustedEvidence` labels every line of a text and escapes what the format gives a meaning
to. It cuts lines at LF alone, after CR and CRLF have become LF and the control characters below
U+0020 are gone. U+0085, U+2028 and U+2029 are none of these: a reader who ends lines where Unicode
does sees what follows one of them on a line without a label.

* `renderLines_splitOn` — the rendering is a header, a word for every character, and a footer;
* **`render_distinct`** — texts that are rendered alike are the same once they are cleaned;
* **`rendersContained_iff`** — the labels hold exactly if nothing that is kept follows such a
  character.
-/

namespace Milhouse

open Text

namespace Render

/-! ## The renderer -/

def maxRenderInputBytes : Nat := 10240
def maxRenderLines : Nat := 200

inductive RenderFormat where
  | plain
  | markdown
  | html
  deriving DecidableEq, Repr

/-- `unicodedata.category(character) == "Cf"`, of the Unicode version the interpreter was built with.
In every version U+0085 is a control and U+2028 and U+2029 are separators. -/
structure FormatCharacters where
  isFormat : Nat → Bool
  breaks_kept : ∀ ord ∈ [0x85, 0x2028, 0x2029], isFormat ord = false

/-- The first and the last of each range of Unicode 14. -/
def formatRanges : List (Nat × Nat) :=
  [(0xAD, 0xAD), (0x600, 0x605), (0x61C, 0x61C), (0x6DD, 0x6DD), (0x70F, 0x70F), (0x890, 0x891),
    (0x8E2, 0x8E2), (0x180E, 0x180E), (0x200B, 0x200F), (0x202A, 0x202E), (0x2060, 0x2064),
    (0x2066, 0x206F), (0xFEFF, 0xFEFF), (0xFFF9, 0xFFFB), (0x110BD, 0x110BD), (0x110CD, 0x110CD),
    (0x13430, 0x13438), (0x1BCA0, 0x1BCA3), (0x1D173, 0x1D17A), (0xE0001, 0xE0001),
    (0xE0020, 0xE007F)]

def unicode14 : FormatCharacters where
  isFormat ord := formatRanges.any fun range => range.1 ≤ ord && ord ≤ range.2
  breaks_kept := List.all_iff_forall_prop.mp (by decide)

/-- The characters that stay in the cleaned text. -/
def isKept (cf : FormatCharacters) (c : Char) : Bool :=
  c = '\n' || c = '\t' || (0x20 ≤ c.toNat && c.toNat ≠ 0x7F && !cf.isFormat c.toNat)

/-- The text with LF for every line end, less what a terminal could act on. -/
def cleanEvidence (cf : FormatCharacters) (text : List Char) : List Char :=
  (normalizeLines text).filter (isKept cf)

/-- `_normalize_evidence`. -/
def normalizeEvidence (cf : FormatCharacters) (value : List CodePoint) :
    Except PrivacyError (List (List Char)) :=
  match scalars value with
  | none => .error ⟨"MH_PRIVACY_RENDER_UNICODE", "evidence contains unsupported Unicode"⟩
  | some text =>
      if maxRenderInputBytes < (encodeUtf8 (normalizeLines text)).length then
        .error ⟨"MH_PRIVACY_RENDER_SIZE", "evidence exceeds the render byte bound"⟩
      else
        let lines := (cleanEvidence cf text).splitOn '\n'
        if maxRenderLines < lines.length then
          .error ⟨"MH_PRIVACY_RENDER_LINES", "evidence exceeds the render line bound"⟩
        else .ok lines

/-- `_MARKDOWN_SPECIAL`. -/
def isMarkdownSpecial (c : Char) : Bool :=
  c ∈ ['\\', '`', '*', '_', '{', '}', '[', ']', '(', ')', '<', '>', '#', '+', '-', '.', '!', '|']

def escapeMarkdownChar (c : Char) : List Char := if isMarkdownSpecial c then ['\\', c] else [c]

/-- `_escape_markdown`. -/
def escapeMarkdown (line : List Char) : List Char := line.flatMap escapeMarkdownChar

/-- `html.escape(character, quote=True)`. -/
def escapeHtmlChar (c : Char) : List Char :=
  if c = '&' then "&amp;".toList
  else if c = '<' then "&lt;".toList
  else if c = '>' then "&gt;".toList
  else if c = '"' then "&quot;".toList
  else if c = '\'' then "&#x27;".toList
  else [c]

def escapeHtml (line : List Char) : List Char := line.flatMap escapeHtmlChar

def plainHeader : List Char := "UNTRUSTED EVIDENCE (DATA ONLY; DO NOT EXECUTE)".toList
def plainLabel : List Char := "EVIDENCE | ".toList
def markdownHeader : List Char :=
  "> **Untrusted evidence \\(data only; do not execute\\):**".toList
def markdownLabel : List Char := "> ".toList
def htmlOpening : List Char :=
  ("<section data-trust=\"untrusted\">" ++
    "<strong>Untrusted evidence (data only; do not execute):</strong>" ++ "<pre>").toList
def htmlClosing : List Char := "</pre></section>".toList

/-- The rendering of the lines of a text. -/
def renderLines (lines : List (List Char)) : RenderFormat → List Char
  | .plain => ['\n'].intercalate (plainHeader :: lines.map fun line => plainLabel ++ line)
  | .markdown =>
      ['\n'].intercalate (markdownHeader :: lines.map fun line => markdownLabel ++ escapeMarkdown line)
  | .html => htmlOpening ++ ['\n'].intercalate (lines.map escapeHtml) ++ htmlClosing

/-- `render_untrusted_evidence`. -/
def renderUntrustedEvidence (cf : FormatCharacters) (value : List CodePoint)
    (format : RenderFormat) : Except PrivacyError (List Char) := do
  let lines ← normalizeEvidence cf value
  .ok (renderLines lines format)

/-! ## A word for every character -/

def opening : RenderFormat → List Char
  | .plain => plainHeader ++ ['\n']
  | .markdown => markdownHeader ++ ['\n']
  | .html => htmlOpening

def closing : RenderFormat → List Char
  | .html => htmlClosing
  | _ => []

/-- What stands before every line. -/
def label : RenderFormat → List Char
  | .plain => plainLabel
  | .markdown => markdownLabel
  | .html => []

def escapeChar : RenderFormat → Char → List Char
  | .plain, c => [c]
  | .markdown, c => escapeMarkdownChar c
  | .html, c => escapeHtmlChar c

def word (format : RenderFormat) (c : Char) : List Char :=
  if c = '\n' then ['\n'] ++ label format else escapeChar format c

theorem renderLines_splitOn (text : List Char) (format : RenderFormat) :
    renderLines (text.splitOn '\n') format =
      opening format ++ (label format ++ text.flatMap (word format)) ++ closing format := by
  have hbody := intercalate_map_splitOn '\n' ['\n'] (label format) (escapeChar format) text
  have hlines : (text.splitOn '\n').map (fun line => label format ++ line.flatMap (escapeChar format))
      ≠ [] := by
    simp
  cases format with
  | plain =>
      have hplain : (text.splitOn '\n').map (fun line => plainLabel ++ line) =
          (text.splitOn '\n').map fun line => label .plain ++ line.flatMap (escapeChar .plain) := by
        apply List.map_congr_left
        intro line _
        show plainLabel ++ line = plainLabel ++ line.flatMap fun c => [c]
        rw [List.flatMap_singleton']
      rw [renderLines, hplain, List.intercalate_cons_of_ne_nil hlines, hbody]
      simp only [opening, closing, List.append_assoc, List.append_nil]
      rfl
  | markdown =>
      have hmarkdown : (text.splitOn '\n').map (fun line => markdownLabel ++ escapeMarkdown line) =
          (text.splitOn '\n').map fun line =>
            label .markdown ++ line.flatMap (escapeChar .markdown) := rfl
      rw [renderLines, hmarkdown, List.intercalate_cons_of_ne_nil hlines, hbody]
      simp only [opening, closing, List.append_assoc, List.append_nil]
      rfl
  | html =>
      have hhtml : (text.splitOn '\n').map escapeHtml =
          (text.splitOn '\n').map fun line => label .html ++ line.flatMap (escapeChar .html) := rfl
      rw [renderLines, hhtml, hbody]
      rfl

variable {cf : FormatCharacters}

/-! ## Where the lines of a rendering begin -/

/-- U+0085, U+2028 and U+2029: the boundaries of lines that are kept and not cut at. -/
def isUnseenBreak (c : Char) : Bool := c.toNat ∈ [0x85, 0x2028, 0x2029]

/-- No boundary that is not cut at has anything after it. -/
def BreaksLast (text : List Char) : Prop := text.Pairwise fun b _ => isUnseenBreak b = false

/-- Each of the three ends a line for a reader, and none is a line end of the renderer or special to
Markdown. -/
theorem isUnseenBreak_boundary {c : Char} (h : isUnseenBreak c = true) :
    isLineBoundary c = true ∧ c ≠ '\r' ∧ c ≠ '\n' ∧ isMarkdownSpecial c = false := by
  simp only [isUnseenBreak, List.mem_cons, List.not_mem_nil, or_false, decide_eq_true_eq] at h
  refine ⟨?_, ?_, ?_, ?_⟩
  · simp only [isLineBoundary, List.mem_cons, List.not_mem_nil, or_false, decide_eq_true_eq]
    omega
  · rintro rfl
    revert h
    decide
  · rintro rfl
    revert h
    decide
  · rw [isMarkdownSpecial, decide_eq_false_iff_not]
    intro hmem
    simp only [List.mem_cons, List.not_mem_nil, or_false] at hmem
    rcases hmem with rfl | rfl | rfl | rfl | rfl | rfl | rfl | rfl | rfl | rfl | rfl | rfl | rfl |
      rfl | rfl | rfl | rfl | rfl <;> revert h <;> decide

/-- A kept character that ends a line ends it in the cut, or is one that is not cut at. -/
theorem isLineBoundary_of_kept {c : Char} (hkept : isKept cf c = true) (hlf : c ≠ '\n') :
    isLineBoundary c = isUnseenBreak c := by
  have hord : c.toNat ≠ 10 := by
    intro h
    exact hlf (Char.ext (UInt32.toNat_inj.mp h))
  have hrange : c = '\t' ∨ 0x20 ≤ c.toNat := by
    simp only [isKept, Bool.or_eq_true, Bool.and_eq_true, decide_eq_true_eq] at hkept
    rcases hkept with (h | h) | ⟨⟨h, -⟩, -⟩
    · exact absurd h hlf
    · exact Or.inl h
    · exact Or.inr h
  rcases hrange with rfl | hrange
  · decide
  · rw [isLineBoundary, isUnseenBreak, decide_eq_decide]
    simp only [List.mem_cons, List.not_mem_nil, or_false]
    omega

/-- What the words of a format are made of. -/
structure Keeps (escape : Char → List Char) : Prop where
  ne_nil : ∀ c, escape c ≠ []
  unseen : ∀ c, isUnseenBreak c = true → escape c = [c]
  boundary : ∀ c, isLineBoundary c = false → ∀ d ∈ escape c, isLineBoundary d = false

/-- Plain text escapes nothing. -/
theorem keeps_plain : Keeps (escapeChar .plain) where
  ne_nil _ := List.cons_ne_nil _ _
  unseen _ _ := rfl
  boundary c hc d hd := by
    obtain rfl := List.mem_singleton.mp hd
    exact hc

/-- Markdown escapes keep the three characters and add no line boundary. -/
theorem keeps_markdown : Keeps (escapeChar .markdown) where
  ne_nil c := by
    rw [escapeChar, escapeMarkdownChar]
    split <;> exact List.cons_ne_nil _ _
  unseen c hc := by
    rw [escapeChar, escapeMarkdownChar, (isUnseenBreak_boundary hc).2.2.2]
    rfl
  boundary c hc d hd := by
    rw [escapeChar, escapeMarkdownChar] at hd
    split at hd
    · rcases List.mem_cons.mp hd with rfl | hd
      · decide
      · obtain rfl := List.mem_singleton.mp hd
        exact hc
    · obtain rfl := List.mem_singleton.mp hd
      exact hc

section Labels

variable {before text : List Char} {format : RenderFormat}

/-- Where the boundaries come last, every line begins with the label. `before` is the current line. -/
theorem labelled_of_breaksLast (hescape : Keeps (escapeChar format))
    (hlabel : ∀ d ∈ label format, isLineBoundary d = false) (hne : label format ≠ [])
    (hkept : ∀ c ∈ text, isKept cf c = true) (hlast : BreaksLast text)
    (hbefore : ∀ d ∈ before, isLineBoundary d = false) (hbegins : label format <+: before) :
    ∀ line ∈ splitlines (before ++ text.flatMap (word format)), label format <+: line := by
  induction text generalizing before with
  | nil =>
      have hbefore_ne : before ≠ [] := by
        rintro rfl
        exact hne (List.prefix_nil.mp hbegins)
      rw [List.flatMap_nil, List.append_nil, splitlines_line hbefore hbefore_ne]
      intro line hline
      obtain rfl := List.mem_singleton.mp hline
      exact hbegins
  | cons c text ih =>
      have hrest : ∀ d ∈ text, isKept cf d = true := fun d hd => hkept d (List.mem_cons_of_mem _ hd)
      obtain ⟨hfirst, htail⟩ := List.pairwise_cons.mp hlast
      rw [List.flatMap_cons, word]
      by_cases hlf : c = '\n'
      · rw [if_pos hlf, List.append_assoc, List.singleton_append,
          splitlines_append hbefore (by decide) (by decide)]
        intro line hline
        rcases List.mem_cons.mp hline with rfl | hline
        · exact hbegins
        · exact ih hrest htail hlabel (List.prefix_refl _) line hline
      · rw [if_neg hlf]
        cases hbreak : isUnseenBreak c with
        | true =>
            -- the boundary is the last character, so no line begins behind it
            obtain rfl : text = [] := by
              cases text with
              | nil => rfl
              | cons d text =>
                  have := hfirst d List.mem_cons_self
                  rw [hbreak] at this
                  cases this
            obtain ⟨hboundary, hcr, -⟩ := isUnseenBreak_boundary hbreak
            rw [hescape.unseen c hbreak, List.singleton_append,
              splitlines_append hbefore hboundary hcr, List.flatMap_nil, splitlines]
            intro line hline
            obtain rfl := List.mem_singleton.mp hline
            exact hbegins
        | false =>
            have hboundary : isLineBoundary c = false := by
              rw [isLineBoundary_of_kept (hkept c List.mem_cons_self) hlf, hbreak]
            rw [← List.append_assoc]
            apply ih hrest htail
            · intro d hd
              rcases List.mem_append.mp hd with hd | hd
              · exact hbefore d hd
              · exact hescape.boundary c hboundary d hd
            · exact hbegins.trans (List.prefix_append _ _)

/-- Where every line begins with the label, and no word of a character does, the boundaries come
last. -/
theorem breaksLast_of_labelled (hescape : Keeps (escapeChar format))
    (hlabel : ∀ d ∈ label format, isLineBoundary d = false)
    (hhead : ∀ c rest, ¬ label format <+: word format c ++ rest)
    (hkept : ∀ c ∈ text, isKept cf c = true) (hbefore : ∀ d ∈ before, isLineBoundary d = false)
    (h : ∀ line ∈ splitlines (before ++ text.flatMap (word format)), label format <+: line) :
    BreaksLast text := by
  induction text generalizing before with
  | nil => exact List.Pairwise.nil
  | cons c text ih =>
      have hrest : ∀ d ∈ text, isKept cf d = true := fun d hd => hkept d (List.mem_cons_of_mem _ hd)
      rw [List.flatMap_cons, word] at h
      by_cases hlf : c = '\n'
      · subst hlf
        rw [if_pos rfl, List.append_assoc, List.singleton_append,
          splitlines_append hbefore (by decide) (by decide)] at h
        refine List.pairwise_cons.mpr ⟨fun _ _ => by decide, ?_⟩
        exact ih hrest hlabel fun line hline => h line (List.mem_cons_of_mem _ hline)
      · rw [if_neg hlf] at h
        cases hbreak : isUnseenBreak c with
        | true =>
            obtain ⟨hboundary, hcr, -⟩ := isUnseenBreak_boundary hbreak
            rw [hescape.unseen c hbreak, List.singleton_append,
              splitlines_append hbefore hboundary hcr] at h
            cases text with
            | nil => exact List.pairwise_singleton _ _
            | cons d text =>
                -- the line behind the boundary begins with the word of the next character
                rw [List.flatMap_cons] at h
                have hword : word format d ++ text.flatMap (word format) ≠ [] := by
                  rw [word]
                  split
                  · exact List.append_ne_nil_of_left_ne_nil (by simp) _
                  · exact List.append_ne_nil_of_left_ne_nil (hescape.ne_nil d) _
                obtain ⟨line, lines, hlines, hbegins⟩ := splitlines_head hword
                have hlabelled := h line (by rw [hlines]; simp)
                exact absurd (hlabelled.trans hbegins) (hhead d _)
        | false =>
            have hboundary : isLineBoundary c = false := by
              rw [isLineBoundary_of_kept (hkept c List.mem_cons_self) hlf, hbreak]
            refine List.pairwise_cons.mpr ⟨fun _ _ => hbreak, ?_⟩
            rw [← List.append_assoc] at h
            refine ih hrest ?_ h
            intro d hd
            rcases List.mem_append.mp hd with hd | hd
            · exact hbefore d hd
            · exact hescape.boundary c hboundary d hd

end Labels

/-! ## The condition on the input -/

/-- A character of the input that the cleaned text does not have. -/
def isRemoved (cf : FormatCharacters) (c : Char) : Bool := c ≠ '\r' && !isKept cf c

/-- Nothing that is kept follows a boundary of lines that is not cut at. -/
def BreaksTrail (cf : FormatCharacters) (text : List Char) : Prop :=
  text.Pairwise fun b c => isUnseenBreak b = true → isRemoved cf c = true

/-- The cleaning keeps all three. -/
theorem isUnseenBreak_kept {c : Char} (h : isUnseenBreak c = true) : isKept cf c = true := by
  simp only [isUnseenBreak, List.mem_cons, List.not_mem_nil, or_false, decide_eq_true_eq] at h
  have hformat : cf.isFormat c.toNat = false := by
    apply cf.breaks_kept
    simp only [List.mem_cons, List.not_mem_nil, or_false]
    exact h
  rw [isKept, hformat, Bool.or_eq_true]
  right
  simp only [Bool.and_eq_true, decide_eq_true_eq, Bool.not_false, and_true]
  omega

/-- All of a text is removed exactly if nothing of it is kept. -/
theorem removed_iff (text : List Char) :
    (∀ c ∈ text, isRemoved cf c = true) ↔ ∀ c ∈ normalizeLines text, isKept cf c = false := by
  fun_induction normalizeLines text with
  | case1 rest ih => simp [isRemoved, isKept]
  | case2 rest hcrlf ih => simp [isRemoved, isKept]
  | case3 c rest hcrlf hcr ih =>
      have hc : isRemoved cf c = true ↔ isKept cf c = false := by
        have hne : c ≠ '\r' := hcr
        simp [isRemoved, hne]
      simp only [List.mem_cons, forall_eq_or_imp, hc, ih]
  | case4 => simp

/-- **The cleaned text ends at its first uncut boundary exactly if the input has only removed
characters behind it.** -/
theorem breaksLast_cleanEvidence (text : List Char) :
    BreaksLast (cleanEvidence cf text) ↔ BreaksTrail cf text := by
  rw [BreaksLast, BreaksTrail, cleanEvidence, List.pairwise_filter]
  have hstep : ∀ c rest, isUnseenBreak c = true →
      ((∀ d ∈ normalizeLines rest, isKept cf c = true → isKept cf d = true →
        isUnseenBreak c = false) ↔ ∀ d ∈ rest, isRemoved cf d = true) := by
    intro c rest hc
    rw [removed_iff]
    apply forall₂_congr
    intro d _
    simp [hc, isUnseenBreak_kept hc]
  have hlf : isUnseenBreak '\n' = false := by decide
  have hcr : isUnseenBreak '\r' = false := by decide
  fun_induction normalizeLines text with
  | case1 rest ih =>
      rw [List.pairwise_cons, List.pairwise_cons, List.pairwise_cons]
      simpa [hlf, hcr] using ih
  | case2 rest hcrlf ih =>
      rw [List.pairwise_cons, List.pairwise_cons]
      simpa [hlf, hcr] using ih
  | case3 c rest _ _ ih =>
      rw [List.pairwise_cons, List.pairwise_cons]
      refine and_congr ?_ ih
      cases hc : isUnseenBreak c with
      | true => simpa [hc] using hstep c rest hc
      | false => simp
  | case4 => simp

/-! ## What the escaping keeps apart -/

/-- A line and its escaped text: a backslash stands before every special character. -/
inductive Escaped : List Char → List Char → Prop where
  | nil : Escaped [] []
  | plain {c : Char} {line text : List Char} (hc : isMarkdownSpecial c = false)
      (h : Escaped line text) : Escaped (c :: line) (c :: text)
  | special {c : Char} {line text : List Char} (hc : isMarkdownSpecial c = true)
      (h : Escaped line text) : Escaped (c :: line) ('\\' :: c :: text)

theorem escaped_escapeMarkdown (line : List Char) : Escaped line (escapeMarkdown line) := by
  induction line with
  | nil => exact .nil
  | cons c line ih =>
      rw [escapeMarkdown, List.flatMap_cons, escapeMarkdownChar]
      cases hc : isMarkdownSpecial c with
      | true => exact .special hc ih
      | false => exact .plain hc ih

/-- The characters with a reference, and what follows its ampersand. -/
def entities : List (Char × List Char) :=
  [('&', "amp;".toList), ('<', "lt;".toList), ('>', "gt;".toList), ('"', "quot;".toList),
    ('\'', "#x27;".toList)]

/-- A character is written as its reference or, if it is harmless, as itself. -/
theorem escapeHtmlChar_cases (c : Char) :
    (∃ entity ∈ entities, c = entity.1 ∧ escapeHtmlChar c = '&' :: entity.2) ∨
      (escapeHtmlChar c = [c] ∧ c ≠ '&' ∧ c ≠ '<' ∧ c ≠ '>' ∧ c ≠ '"' ∧ c ≠ '\'') := by
  by_cases hentity : ∃ entity ∈ entities, c = entity.1
  · left
    obtain ⟨entity, hmem, rfl⟩ := hentity
    refine ⟨entity, hmem, rfl, ?_⟩
    have hall : ∀ entity ∈ entities, escapeHtmlChar entity.1 = '&' :: entity.2 := by decide
    exact hall entity hmem
  · right
    have hne : c ≠ '&' ∧ c ≠ '<' ∧ c ≠ '>' ∧ c ≠ '"' ∧ c ≠ '\'' := by
      simpa [entities] using hentity
    obtain ⟨hamp, hlt, hgt, hquote, hapostrophe⟩ := hne
    refine ⟨?_, hamp, hlt, hgt, hquote, hapostrophe⟩
    rw [escapeHtmlChar, if_neg hamp, if_neg hlt, if_neg hgt, if_neg hquote, if_neg hapostrophe]

/-- A text without a bare `<`, `>`, quote or ampersand. -/
structure HtmlSafe (body : List Char) : Prop where
  bare : ∀ c ∈ body, c ≠ '<' ∧ c ≠ '>' ∧ c ≠ '"' ∧ c ≠ '\''
  reference : ∀ before rest, body = before ++ '&' :: rest → ∃ entity ∈ entities, entity.2 <+: rest

/-- Safe texts make up a safe text. -/
theorem HtmlSafe.append {left right : List Char} (hleft : HtmlSafe left) (hright : HtmlSafe right) :
    HtmlSafe (left ++ right) := by
  refine ⟨fun c hc => ?_, fun before rest heq => ?_⟩
  · rcases List.mem_append.mp hc with hc | hc
    · exact hleft.bare c hc
    · exact hright.bare c hc
  · rcases List.append_eq_append_iff.mp heq with ⟨more, hbefore, hrest⟩ | ⟨more, hbefore, hrest⟩
    · exact hright.reference more rest hrest
    · cases more with
      | nil => exact hright.reference [] rest (by simpa using hrest.symm)
      | cons c more =>
          obtain ⟨rfl, rfl⟩ := List.cons.inj hrest
          obtain ⟨entity, hmem, hbegins⟩ := hleft.reference before more hbefore
          exact ⟨entity, hmem, hbegins.trans (List.prefix_append _ _)⟩

theorem htmlSafe_nil : HtmlSafe [] :=
  ⟨fun _ h => absurd h List.not_mem_nil, fun before _ h => by cases before <;> cases h⟩

theorem htmlSafe_escapeHtmlChar (c : Char) : HtmlSafe (escapeHtmlChar c) := by
  rcases escapeHtmlChar_cases c with ⟨entity, hmem, -, hword⟩ | ⟨hword, hamp, hbare⟩
  · have hall : (entities.all fun entity => decide ('&' ∉ entity.2) &&
        ('&' :: entity.2).all fun d => decide (d ≠ '<' ∧ d ≠ '>' ∧ d ≠ '"' ∧ d ≠ '\'')) = true := by
      decide
    simp only [List.all_eq_true, Bool.and_eq_true, decide_eq_true_eq] at hall
    obtain ⟨hsingle, hbare⟩ := hall entity hmem
    rw [hword]
    refine ⟨hbare, fun before rest heq => ?_⟩
    cases before with
    | nil => exact ⟨entity, hmem, (List.cons.inj heq).2 ▸ List.prefix_refl _⟩
    | cons d before =>
        rw [(List.cons.inj heq).2] at hsingle
        simp at hsingle
  · rw [hword]
    refine ⟨fun d hd => ?_, fun before rest heq => ?_⟩
    · obtain rfl := List.mem_singleton.mp hd
      exact hbare
    · have hmem : '&' ∈ [c] := by
        rw [heq]
        simp
      exact absurd (List.mem_singleton.mp hmem).symm hamp

/-- What is written between the tags is safe. -/
theorem htmlSafe_flatMap_word (text : List Char) : HtmlSafe (text.flatMap (word .html)) := by
  induction text with
  | nil => exact htmlSafe_nil
  | cons c text ih =>
      rw [List.flatMap_cons]
      refine HtmlSafe.append ?_ ih
      rw [word]
      split
      · rename_i hc
        subst hc
        exact htmlSafe_escapeHtmlChar '\n'
      · exact htmlSafe_escapeHtmlChar c

/-- The character that the first word of a rendering stands for. -/
def readWord : RenderFormat → List Char → Option Char
  | .plain, c :: _ => some c
  | .markdown, '\\' :: c :: _ => some c
  | .markdown, c :: _ => some c
  | .html, '&' :: 'a' :: _ => some '&'
  | .html, '&' :: 'l' :: _ => some '<'
  | .html, '&' :: 'g' :: _ => some '>'
  | .html, '&' :: 'q' :: _ => some '"'
  | .html, '&' :: '#' :: _ => some '\''
  | .html, c :: _ => some c
  | _, [] => none

/-- The first word of a rendering tells the character it stands for. -/
theorem readWord_word (format : RenderFormat) (c : Char) (rest : List Char) :
    readWord format (word format c ++ rest) = some c := by
  rw [word]
  by_cases hlf : c = '\n'
  · rw [if_pos hlf, hlf]
    cases format <;> rfl
  · rw [if_neg hlf]
    cases format with
    | plain => rfl
    | markdown =>
        rw [escapeChar, escapeMarkdownChar]
        cases hc : isMarkdownSpecial c with
        | true => rfl
        | false =>
            have hne : c ≠ '\\' := by
              rintro rfl
              revert hc
              decide
            rw [if_neg Bool.false_ne_true, List.singleton_append, readWord]
            rintro d rest' rfl
            exact absurd rfl hne
    | html =>
        rw [escapeChar]
        rcases escapeHtmlChar_cases c with ⟨entity, hmem, rfl, hword⟩ | ⟨hword, hamp, -⟩
        · rw [hword]
          simp only [entities, List.mem_cons, List.not_mem_nil, or_false] at hmem
          rcases hmem with rfl | rfl | rfl | rfl | rfl <;> rfl
        · rw [hword, List.singleton_append, readWord] <;> exact fun _ hc => absurd hc hamp

/-- No word of a format begins another. -/
theorem word_unique (format : RenderFormat) (c d : Char) (s t : List Char)
    (h : word format c ++ s = word format d ++ t) : c = d := by
  have hread := readWord_word format c s
  rw [h, readWord_word] at hread
  exact (Option.some.inj hread).symm

theorem word_ne_nil (format : RenderFormat) (c : Char) : word format c ≠ [] := by
  intro h
  have hread := readWord_word format c []
  rw [h] at hread
  cases format <;> cases hread

/-- **The rendering of a text keeps all of it.** -/
theorem renderLines_injective {text other : List Char} {format : RenderFormat}
    (h : renderLines (text.splitOn '\n') format = renderLines (other.splitOn '\n') format) :
    text = other := by
  rw [renderLines_splitOn, renderLines_splitOn, List.append_cancel_right_eq,
    List.append_cancel_left_eq, List.append_cancel_left_eq] at h
  exact flatMap_injective (word_ne_nil format) (word_unique format) h

/-! ## Containment -/

/-- An accepted text cannot leave what it is rendered in. -/
structure RendersContained (cf : FormatCharacters) (value : List CodePoint) : Prop where
  plain : ∀ rendered, renderUntrustedEvidence cf value .plain = .ok rendered →
    ∀ line ∈ (splitlines rendered).tail, plainLabel <+: line
  markdown_lines : ∀ rendered, renderUntrustedEvidence cf value .markdown = .ok rendered →
    ∀ line ∈ splitlines rendered, markdownLabel <+: line
  markdown_escaped : ∀ lines rendered, normalizeEvidence cf value = .ok lines →
    renderUntrustedEvidence cf value .markdown = .ok rendered →
    ∃ texts, List.Forall₂ Escaped lines texts ∧
      rendered = ['\n'].intercalate (markdownHeader :: texts.map fun text => markdownLabel ++ text)
  html : ∀ rendered, renderUntrustedEvidence cf value .html = .ok rendered →
    ∃ body, rendered = htmlOpening ++ body ++ htmlClosing ∧ HtmlSafe body
  distinct : ∀ other format rendered, renderUntrustedEvidence cf value format = .ok rendered →
    renderUntrustedEvidence cf other format = .ok rendered →
    normalizeEvidence cf other = normalizeEvidence cf value

/-- What an accepted value is cut into. -/
theorem normalizeEvidence_eq_ok {value : List CodePoint} {lines : List (List Char)}
    (h : normalizeEvidence cf value = .ok lines) :
    ∃ text, scalars value = some text ∧ lines = (cleanEvidence cf text).splitOn '\n' := by
  rw [normalizeEvidence] at h
  split at h
  · cases h
  · rename_i text htext
    split at h
    · cases h
    · dsimp only at h
      split at h
      · cases h
      · exact ⟨text, htext, (Except.ok.inj h).symm⟩

/-- An accepted value is rendered from the lines of its cleaned text. -/
theorem renderUntrustedEvidence_eq_ok {value : List CodePoint} {format : RenderFormat}
    {rendered : List Char} (h : renderUntrustedEvidence cf value format = .ok rendered) :
    ∃ text, scalars value = some text ∧
      normalizeEvidence cf value = .ok ((cleanEvidence cf text).splitOn '\n') ∧
      rendered = renderLines ((cleanEvidence cf text).splitOn '\n') format := by
  obtain ⟨lines, hlines, heq⟩ := Except.bind_eq_ok_iff.mp h
  obtain ⟨text, htext, rfl⟩ := normalizeEvidence_eq_ok hlines
  exact ⟨text, htext, hlines, (Except.ok.inj heq).symm⟩

/-- Values that are rendered alike have the same lines once they are cleaned. -/
theorem render_distinct {value other : List CodePoint} {format : RenderFormat}
    {rendered : List Char} (h : renderUntrustedEvidence cf value format = .ok rendered)
    (hother : renderUntrustedEvidence cf other format = .ok rendered) :
    normalizeEvidence cf other = normalizeEvidence cf value := by
  obtain ⟨text, -, hnormalize, rfl⟩ := renderUntrustedEvidence_eq_ok h
  obtain ⟨text', -, hnormalize', heq⟩ := renderUntrustedEvidence_eq_ok hother
  rw [hnormalize, hnormalize', renderLines_injective heq]

/-- The lines of a rendering behind its first. -/
theorem splitlines_renderLines {text : List Char} {format : RenderFormat} {header : List Char}
    (hopening : opening format = header ++ ['\n']) (hclosing : closing format = [])
    (hheader : ∀ d ∈ header, isLineBoundary d = false) :
    splitlines (renderLines (text.splitOn '\n') format) =
      header :: splitlines (label format ++ text.flatMap (word format)) := by
  rw [renderLines_splitOn, hopening, hclosing, List.append_nil, List.append_assoc,
    List.singleton_append, splitlines_append hheader (by decide) (by decide)]

theorem mem_cleanEvidence_kept {text : List Char} :
    ∀ c ∈ cleanEvidence cf text, isKept cf c = true :=
  fun _ hc => (List.mem_filter.mp hc).2

/-- **An accepted text stays labelled, line by line, exactly if nothing that is kept follows a
boundary the renderer does not cut at.** -/
theorem rendersContained_iff {value : List CodePoint} {text : List Char}
    {lines : List (List Char)} (htext : scalars value = some text)
    (haccepted : normalizeEvidence cf value = .ok lines) :
    RendersContained cf value ↔ BreaksTrail cf text := by
  obtain ⟨text', htext', rfl⟩ := normalizeEvidence_eq_ok haccepted
  obtain rfl : text' = text := Option.some.inj (htext'.symm.trans htext)
  have hrender : ∀ format, renderUntrustedEvidence cf value format =
      .ok (renderLines ((cleanEvidence cf text').splitOn '\n') format) := by
    intro format
    rw [renderUntrustedEvidence, haccepted]
    rfl
  have hplainHeader : ∀ d ∈ plainHeader, isLineBoundary d = false :=
    List.all_iff_forall_prop.mp (by decide)
  have hmarkdownHeader : ∀ d ∈ markdownHeader, isLineBoundary d = false :=
    List.all_iff_forall_prop.mp (by decide)
  have hplainLabel : ∀ d ∈ label .plain, isLineBoundary d = false :=
    List.all_iff_forall_prop.mp (by decide)
  have hmarkdownLabel : ∀ d ∈ label .markdown, isLineBoundary d = false :=
    List.all_iff_forall_prop.mp (by decide)
  rw [← breaksLast_cleanEvidence]
  constructor
  · intro h
    have hlines := h.markdown_lines _ (hrender .markdown)
    rw [splitlines_renderLines rfl rfl hmarkdownHeader] at hlines
    refine breaksLast_of_labelled keeps_markdown hmarkdownLabel ?_ mem_cleanEvidence_kept
      hmarkdownLabel fun line hline => hlines line (List.mem_cons_of_mem _ hline)
    -- a word never begins with the bare `>` of the label
    rintro c rest ⟨more, heq⟩
    have hread := readWord_word .markdown c rest
    rw [← heq] at hread
    obtain rfl : '>' = c := Option.some.inj hread
    exact absurd (List.cons.inj heq).1 (by decide)
  · intro h
    constructor
    case plain =>
      intro rendered hrendered
      rw [hrender] at hrendered
      obtain rfl := Except.ok.inj hrendered
      rw [splitlines_renderLines rfl rfl hplainHeader]
      exact labelled_of_breaksLast keeps_plain hplainLabel (by decide) mem_cleanEvidence_kept h
        hplainLabel (List.prefix_refl _)
    case markdown_lines =>
      intro rendered hrendered
      rw [hrender] at hrendered
      obtain rfl := Except.ok.inj hrendered
      rw [splitlines_renderLines rfl rfl hmarkdownHeader]
      intro line hline
      rcases List.mem_cons.mp hline with rfl | hline
      · decide
      · exact labelled_of_breaksLast keeps_markdown hmarkdownLabel (by decide)
          mem_cleanEvidence_kept h hmarkdownLabel (List.prefix_refl _) line hline
    case markdown_escaped =>
      intro lines rendered hlines hrendered
      rw [haccepted] at hlines
      obtain rfl := Except.ok.inj hlines
      rw [hrender] at hrendered
      obtain rfl := Except.ok.inj hrendered
      refine ⟨((cleanEvidence cf text').splitOn '\n').map escapeMarkdown, ?_, ?_⟩
      · rw [List.forall₂_map_right_iff]
        exact List.forall₂_same.mpr fun line _ => escaped_escapeMarkdown line
      · rw [List.map_map]
        rfl
    case html =>
      intro rendered hrendered
      rw [hrender, renderLines_splitOn] at hrendered
      obtain rfl := Except.ok.inj hrendered
      exact ⟨_, rfl, htmlSafe_flatMap_word _⟩
    case distinct =>
      intro other format rendered hrendered hother
      exact render_distinct hrendered hother

/-- Two lines for a reader who ends a line at U+2028, one for the renderer. -/
def sampleBreak : List CodePoint := ['a', '\u2028', 'b'].map ofChar

/-- A line that U+2028 begins for a reader has no label. -/
theorem rendersContained_sample :
    normalizeEvidence unicode14 sampleBreak = .ok [['a', '\u2028', 'b']] ∧
      ¬ RendersContained unicode14 sampleBreak := by
  refine ⟨by decide, fun h => ?_⟩
  have hplain := h.plain (plainHeader ++ '\n' :: plainLabel ++ ['a', '\u2028', 'b']) (by decide)
  revert hplain
  decide

/-- A text with a boundary that trails. -/
theorem rendersContained_trailing :
    RendersContained unicode14 (['a', '\u2028'].map ofChar) ↔ BreaksTrail unicode14 ['a', '\u2028'] :=
  rendersContained_iff (by decide)
    (show normalizeEvidence unicode14 _ = .ok [['a', '\u2028']] by decide)

end Render

end Milhouse
