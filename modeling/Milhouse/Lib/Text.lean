import Mathlib.Data.List.Basic

/-!
# Text — code points, line boundaries and replacement codes

* `scalars` is the text of a string of code points, unless a surrogate stands in it;
* `splitlines` cuts a text at every boundary that Unicode defines, and `splitlines_append` says how
  the first of them ends the first line;
* **`intercalate_map_splitOn`** — to rewrite and to label every line is to rewrite every character;
* **`flatMap_injective`** — a code no word of which begins another loses nothing.
-/

namespace Text

/-! ## Code points -/

abbrev CodePoint := Fin 0x110000

def isSurrogate (c : CodePoint) : Bool := 0xD800 ≤ c.val && c.val ≤ 0xDFFF

/-- The code point of a character. -/
def ofChar (c : Char) : CodePoint :=
  ⟨c.toNat, by
    have h := c.valid
    rcases h with h | h
    · show c.val.toNat < _
      have : c.val.toNat < 0xD800 := h
      omega
    · exact h.2⟩

def toChar? (c : CodePoint) : Option Char :=
  if h : c.val.isValidChar then some (Char.ofNatAux c.val h) else none

/-- The characters of a string, unless it has a surrogate. -/
def scalars : List CodePoint → Option (List Char)
  | [] => some []
  | c :: rest =>
      match toChar? c, scalars rest with
      | some c, some rest => some (c :: rest)
      | _, _ => none

theorem isValidChar_iff (c : CodePoint) : c.val.isValidChar ↔ isSurrogate c = false := by
  have h := c.isLt
  simp only [Nat.isValidChar, isSurrogate, Bool.and_eq_false_iff, decide_eq_false_iff_not]
  omega

@[simp] theorem toChar?_ofChar (c : Char) : toChar? (ofChar c) = some c := by
  have h : (ofChar c).val.isValidChar := c.valid
  rw [toChar?, dif_pos h]
  rfl

theorem toChar?_eq_some {c : CodePoint} {char : Char} (h : toChar? c = some char) :
    c = ofChar char := by
  by_cases hvalid : c.val.isValidChar
  · rw [toChar?, dif_pos hvalid] at h
    obtain rfl := Option.some.inj h
    rfl
  · rw [toChar?, dif_neg hvalid] at h
    cases h

/-- **The characters of a string are a text whose code points are the string.** -/
theorem scalars_eq_some_iff {s : List CodePoint} {text : List Char} :
    scalars s = some text ↔ s = text.map ofChar := by
  induction s generalizing text with
  | nil => cases text <;> simp [scalars]
  | cons c s ih =>
      constructor
      · intro h
        rw [scalars] at h
        split at h
        · rename_i char rest hchar hrest
          obtain rfl := Option.some.inj h
          rw [List.map_cons, ← toChar?_eq_some hchar, ← ih.mp hrest]
        · cases h
      · intro h
        cases text with
        | nil => cases h
        | cons char rest =>
            rw [List.map_cons] at h
            obtain ⟨rfl, hrest⟩ := List.cons.inj h
            rw [scalars, toChar?_ofChar, ih.mpr hrest]

/-- **Only a string with a surrogate has no text.** -/
theorem scalars_eq_none_iff {s : List CodePoint} :
    scalars s = none ↔ s.any isSurrogate = true := by
  induction s with
  | nil => simp [scalars]
  | cons c s ih =>
      rw [List.any_cons, Bool.or_eq_true, ← ih, scalars]
      cases hsurrogate : isSurrogate c with
      | true =>
          have hinvalid : ¬ c.val.isValidChar := by simp [isValidChar_iff, hsurrogate]
          have hnone : toChar? c = none := dif_neg hinvalid
          rw [hnone]
          simp
      | false =>
          obtain ⟨char, hchar⟩ : ∃ char, toChar? c = some char :=
            ⟨_, dif_pos ((isValidChar_iff c).mpr hsurrogate)⟩
          rw [hchar]
          cases scalars s <;> simp

/-! ## Lines -/

/-- The boundaries of lines that Unicode defines. -/
def isLineBoundary (c : Char) : Bool :=
  c.toNat ∈ [0x0A, 0x0B, 0x0C, 0x0D, 0x1C, 0x1D, 0x1E, 0x85, 0x2028, 0x2029]

/-- `str.splitlines`: the lines of a text, without their ends. -/
def splitlines : List Char → List (List Char)
  | [] => []
  | '\r' :: '\n' :: rest => [] :: splitlines rest
  | c :: rest =>
      if isLineBoundary c then [] :: splitlines rest
      else
        match splitlines rest with
        | [] => [[c]]
        | line :: lines => (c :: line) :: lines

theorem splitlines_boundary {c : Char} {rest : List Char} (hboundary : isLineBoundary c = true)
    (hcr : c ≠ '\r') : splitlines (c :: rest) = [] :: splitlines rest := by
  rw [splitlines, if_pos hboundary]
  rintro rest' rfl
  exact absurd rfl hcr

theorem splitlines_other {c : Char} {rest : List Char} (h : isLineBoundary c = false) :
    splitlines (c :: rest) = match splitlines rest with
      | [] => [[c]]
      | line :: lines => (c :: line) :: lines := by
  rw [splitlines, if_neg (by rw [h]; exact Bool.false_ne_true)]
  rintro rest' rfl
  exact absurd h (by decide)

/-- A line ends at the first boundary. -/
theorem splitlines_append {line rest : List Char} {c : Char}
    (hline : ∀ d ∈ line, isLineBoundary d = false) (hboundary : isLineBoundary c = true)
    (hcr : c ≠ '\r') : splitlines (line ++ c :: rest) = line :: splitlines rest := by
  induction line with
  | nil => exact splitlines_boundary hboundary hcr
  | cons d line ih =>
      have hd := hline d List.mem_cons_self
      rw [List.cons_append, splitlines_other hd,
        ih fun d hd => hline d (List.mem_cons_of_mem _ hd)]

/-- A text without a boundary is one line. -/
theorem splitlines_line {line : List Char} (hline : ∀ d ∈ line, isLineBoundary d = false)
    (hne : line ≠ []) : splitlines line = [line] := by
  induction line with
  | nil => exact absurd rfl hne
  | cons d line ih =>
      rw [splitlines_other (hline d List.mem_cons_self)]
      cases line with
      | nil => rfl
      | cons e line =>
          rw [ih (fun d hd => hline d (List.mem_cons_of_mem _ hd)) (List.cons_ne_nil _ _)]

/-- The first line of a text begins it. -/
theorem splitlines_head {text : List Char} (hne : text ≠ []) :
    ∃ line lines, splitlines text = line :: lines ∧ line <+: text := by
  cases text with
  | nil => exact absurd rfl hne
  | cons c rest =>
      cases hboundary : isLineBoundary c with
      | true =>
          by_cases hcr : c = '\r'
          · subst hcr
            cases rest with
            | nil => exact ⟨[], [], rfl, List.nil_prefix⟩
            | cons d rest =>
                by_cases hlf : d = '\n'
                · subst hlf
                  exact ⟨[], splitlines rest, rfl, List.nil_prefix⟩
                · refine ⟨[], splitlines (d :: rest), ?_, List.nil_prefix⟩
                  rw [splitlines, if_pos hboundary]
                  rintro rest' - hrest
                  exact hlf (List.cons.inj hrest).1
          · exact ⟨[], splitlines rest, splitlines_boundary hboundary hcr, List.nil_prefix⟩
      | false =>
          rw [splitlines_other hboundary]
          cases hrest : splitlines rest with
          | nil => exact ⟨[c], [], rfl, rest, rfl⟩
          | cons line lines =>
              refine ⟨c :: line, lines, rfl, ?_⟩
              by_cases hnil : rest = []
              · subst hnil
                cases hrest
              · obtain ⟨line', lines', heq, hprefix⟩ := splitlines_head hnil
                rw [hrest] at heq
                obtain ⟨rfl, rfl⟩ := List.cons.inj heq
                exact List.cons_prefix_cons.mpr ⟨rfl, hprefix⟩
termination_by text.length

/-! ## Rewriting a text -/

section Rewriting

variable {α β : Type}

theorem intercalate_cons (separator first : List β) (rest : List (List β)) :
    separator.intercalate (first :: rest) = first ++ rest.flatMap fun line => separator ++ line := by
  induction rest generalizing first with
  | nil => simp
  | cons line rest ih =>
      rw [List.intercalate_cons_of_ne_nil (List.cons_ne_nil _ _), ih, List.flatMap_cons,
        List.append_assoc, List.append_assoc]

/-- **To rewrite and to label every line is to rewrite every character.** -/
theorem intercalate_map_splitOn [DecidableEq α] (sep : α) (separator label : List β) (code : α → List β)
    (text : List α) :
    separator.intercalate ((text.splitOn sep).map fun line => label ++ line.flatMap code) =
      label ++ text.flatMap fun c => if c = sep then separator ++ label else code c := by
  induction text with
  | nil => simp
  | cons c text ih =>
      rw [List.splitOn_cons_eq_if_modifyHead, List.flatMap_cons]
      obtain ⟨line, lines, hsplit⟩ := List.exists_cons_of_ne_nil (List.splitOn_ne_nil sep text)
      rw [hsplit, List.map_cons, intercalate_cons, List.append_assoc,
        List.append_cancel_left_eq] at ih
      rw [hsplit]
      by_cases hc : c = sep
      · rw [if_pos (beq_iff_eq.mpr hc), if_pos hc, List.map_cons, intercalate_cons, List.map_cons,
          List.flatMap_cons, List.flatMap_nil, List.append_nil, ← ih]
        simp only [List.append_assoc]
      · rw [if_neg (by simpa using hc), if_neg hc, List.modifyHead_cons, List.map_cons,
          intercalate_cons, List.flatMap_cons, ← ih]
        simp only [List.append_assoc]

/-- **A code no word of which begins another loses nothing.** -/
theorem flatMap_injective {code : α → List β} (hne : ∀ c, code c ≠ [])
    (hcode : ∀ c d s t, code c ++ s = code d ++ t → c = d) :
    ∀ {text other : List α}, text.flatMap code = other.flatMap code → text = other
  | [], [], _ => rfl
  | [], d :: other, h => by
      rw [List.flatMap_nil, List.flatMap_cons] at h
      exact absurd (List.append_eq_nil_iff.mp h.symm).1 (hne d)
  | c :: text, [], h => by
      rw [List.flatMap_nil, List.flatMap_cons] at h
      exact absurd (List.append_eq_nil_iff.mp h).1 (hne c)
  | c :: text, d :: other, h => by
      rw [List.flatMap_cons, List.flatMap_cons] at h
      obtain rfl := hcode c d _ _ h
      rw [List.append_cancel_left_eq] at h
      rw [flatMap_injective hne hcode h]

end Rewriting

end Text
