import Mathlib.Data.Rat.Defs
import Mathlib.Data.Rat.Lemmas
import Milhouse.Lib.PyJson

/-!
# Numeral — exact decimals and the numerals that denote them

A `Decimal` is a sign, a coefficient and a power of ten, as a shortest round-trip text gives them.
`decimal?` reads the numerals of JSON that have a fraction or an exponent part.

* `isNumeral_of_decimal?`, `integer?_of_decimal?` — what such a numeral is made of, and what it is not;
* **`decimal?_fixed`**, **`decimal?_scientific`** — the two shapes of a numeral denote what they say;
* **`readNumber_of_decimal?`** — `json.loads` reads such a numeral to its end, as one float.
-/

namespace Numeral

open Json PyJson

/-- `±coefficient · 10 ^ exponent`. -/
structure Decimal where
  negative : Bool
  coefficient : Nat
  exponent : Int
  deriving DecidableEq, Repr

/-- The number a decimal is. -/
def Decimal.value (d : Decimal) : ℚ :=
  (if d.negative then -1 else 1) * d.coefficient * 10 ^ d.exponent

/-- The parts of an unsigned numeral, and what is behind it. -/
structure Scan where
  digits : List Char
  fraction : List Char
  exponent : List Char
  rest : List Char

/-- Read the parts of an unsigned numeral. -/
def scan (text : List Char) : Scan where
  digits := (readInteger text).1
  fraction := (readFraction (readInteger text).2).1
  exponent := (readExponent (readFraction (readInteger text).2).2).1
  rest := (readExponent (readFraction (readInteger text).2).2).2

/-- The value of an exponent part; an absent one is 0. -/
def exponentValue : List Char → Int
  | _ :: '-' :: digits => -(Nat.ofDigitChars 10 digits 0 : Int)
  | _ :: '+' :: digits => Nat.ofDigitChars 10 digits 0
  | _ :: digits => Nat.ofDigitChars 10 digits 0
  | [] => 0

/-- The decimal of an unsigned numeral that is not an integer numeral. -/
def unsigned? (negative : Bool) (text : List Char) : Option Decimal :=
  let s := scan text
  if s.digits = [] ∨ s.rest ≠ [] ∨ (s.fraction = [] ∧ s.exponent = []) then none
  else some ⟨negative, Nat.ofDigitChars 10 (s.digits ++ s.fraction.tail) 0,
    exponentValue s.exponent - s.fraction.tail.length⟩

/-- The decimal of a numeral that is not an integer numeral. -/
def decimal? : List Char → Option Decimal
  | '-' :: text => unsigned? true text
  | text => unsigned? false text

/-! ## Where a part ends -/

/-- No digit comes next. -/
def Stops (text : List Char) : Prop := ∀ c ∈ text.head?, c.isDigit = false

/-- What may follow a numeral does not begin with a digit. -/
theorem stops_of_follows {text : List Char} (h : Follows text) : Stops text := by
  intro c hc
  cases hdigit : c.isDigit
  · rfl
  · have hnumeral := isNumeral_of_isDigit hdigit
    rw [h c hc] at hnumeral
    cases hnumeral

/-- Digits are read up to their end, whatever comes behind it. -/
theorem takeWhile_stops {text rest : List Char} (h : Stops rest) :
    (text ++ rest).takeWhile Char.isDigit = text.takeWhile Char.isDigit ∧
      (text ++ rest).dropWhile Char.isDigit = text.dropWhile Char.isDigit ++ rest := by
  induction text with
  | nil =>
      cases rest with
      | nil => exact ⟨rfl, rfl⟩
      | cons c tail =>
          have hc : c.isDigit = false := h c rfl
          simp [hc]
  | cons c text ih =>
      cases hc : c.isDigit
      · simp [hc]
      · simp [hc, ih.1, ih.2]

/-- Reading the integer part does not depend on what follows the numeral. -/
theorem readInteger_append {text rest : List Char} (h : Stops rest) :
    readInteger (text ++ rest) = ((readInteger text).1, (readInteger text).2 ++ rest) := by
  obtain ⟨htake, hdrop⟩ := @takeWhile_stops text rest h
  rcases text with _ | ⟨c, text⟩
  · unfold readInteger
    rw [List.nil_append] at htake hdrop ⊢
    split
    · rename_i tail
      exact absurd (h '0' rfl) (by decide)
    · rw [htake, hdrop]
  · by_cases hc : c = '0'
    · rw [hc]
      rfl
    · rw [List.cons_append] at htake hdrop ⊢
      rw [readInteger.eq_2 _ fun _ heq => hc (List.cons.inj heq).1, htake, hdrop,
        readInteger.eq_2 _ fun _ heq => hc (List.cons.inj heq).1]

/-- Reading the fraction does not depend on what follows the numeral. -/
theorem readFraction_append {text rest : List Char} (h : Follows rest) :
    readFraction (text ++ rest) = ((readFraction text).1, (readFraction text).2 ++ rest) := by
  rcases text with _ | ⟨c, text⟩
  · rw [List.nil_append, readFraction_follows h]
    rfl
  · obtain ⟨htake, hdrop⟩ := @takeWhile_stops text rest (stops_of_follows h)
    by_cases hc : c = '.'
    · rw [hc, List.cons_append, readFraction, readFraction, htake, hdrop]
      split <;> rfl
    · rw [List.cons_append, readFraction.eq_2 _ fun _ heq => hc (List.cons.inj heq).1,
        readFraction.eq_2 _ fun _ heq => hc (List.cons.inj heq).1]
      rfl

theorem readSign_append {text rest : List Char} (h : Follows rest) :
    readSign (text ++ rest) = ((readSign text).1, (readSign text).2 ++ rest) := by
  rcases text with _ | ⟨c, text⟩
  · rw [List.nil_append]
    unfold readSign
    split
    · exact absurd (h '+' rfl) (by decide)
    · exact absurd (h '-' rfl) (by decide)
    · rfl
  · by_cases hplus : c = '+'
    · rw [hplus]
      rfl
    · by_cases hminus : c = '-'
      · rw [hminus]
        rfl
      · rw [List.cons_append, readSign.eq_3 _ (fun _ heq => hplus (List.cons.inj heq).1)
          fun _ heq => hminus (List.cons.inj heq).1, readSign.eq_3 _
          (fun _ heq => hplus (List.cons.inj heq).1) fun _ heq => hminus (List.cons.inj heq).1]
        rfl

/-- Reading the exponent does not depend on what follows the numeral. -/
theorem readExponent_append {text rest : List Char} (h : Follows rest) :
    readExponent (text ++ rest) = ((readExponent text).1, (readExponent text).2 ++ rest) := by
  rcases text with _ | ⟨c, text⟩
  · rw [List.nil_append, readExponent_follows h]
    rfl
  · obtain ⟨htake, hdrop⟩ := @takeWhile_stops (readSign text).2 rest (stops_of_follows h)
    rw [List.cons_append, readExponent, readExponent, readSign_append h]
    dsimp only
    rw [htake, hdrop]
    split
    · split <;> rfl
    · rfl

/-- **What follows a numeral is left behind it.** -/
theorem scan_append {text rest : List Char} (h : Follows rest) :
    scan (text ++ rest) = { scan text with rest := (scan text).rest ++ rest } := by
  unfold scan
  rw [readInteger_append (stops_of_follows h)]
  dsimp only
  rw [readFraction_append h]
  dsimp only
  rw [readExponent_append h]

/-! ## The parts are the text -/

theorem readInteger_concat (text : List Char) : (readInteger text).1 ++ (readInteger text).2 = text := by
  unfold readInteger
  split
  · rfl
  · exact List.takeWhile_append_dropWhile

theorem readFraction_concat (text : List Char) :
    (readFraction text).1 ++ (readFraction text).2 = text := by
  unfold readFraction
  split
  · split
    · rfl
    · rw [List.cons_append, List.takeWhile_append_dropWhile]
  · rfl

theorem readSign_concat (text : List Char) : (readSign text).1 ++ (readSign text).2 = text := by
  unfold readSign
  split <;> rfl

theorem readExponent_concat (text : List Char) :
    (readExponent text).1 ++ (readExponent text).2 = text := by
  unfold readExponent
  split
  · split
    · dsimp only
      split
      · rfl
      · rw [List.cons_append, List.cons_append, List.append_assoc, List.takeWhile_append_dropWhile,
          readSign_concat]
    · rfl
  · rfl

/-- The parts that a scan reads make up the text again. -/
theorem scan_concat (text : List Char) :
    (scan text).digits ++ (scan text).fraction ++ (scan text).exponent ++ (scan text).rest = text := by
  unfold scan
  dsimp only
  rw [List.append_assoc, List.append_assoc, readExponent_concat, readFraction_concat,
    readInteger_concat]

/-! ## What a numeral of a decimal is made of -/

theorem readInteger_numeral (text : List Char) : ∀ c ∈ (readInteger text).1, isNumeral c = true := by
  intro c hc
  unfold readInteger at hc
  split at hc
  · rw [List.mem_singleton.mp hc]
    decide
  · exact isNumeral_of_isDigit (List.mem_takeWhile_imp hc)

theorem readFraction_numeral (text : List Char) :
    ∀ c ∈ (readFraction text).1, isNumeral c = true := by
  intro c hc
  unfold readFraction at hc
  split at hc
  · split at hc
    · cases hc
    · rcases List.mem_cons.mp hc with rfl | hc
      · decide
      · exact isNumeral_of_isDigit (List.mem_takeWhile_imp hc)
  · cases hc

theorem readSign_numeral (text : List Char) : ∀ c ∈ (readSign text).1, isNumeral c = true := by
  intro c hc
  unfold readSign at hc
  split at hc
  · rw [List.mem_singleton.mp hc]
    decide
  · rw [List.mem_singleton.mp hc]
    decide
  · cases hc

theorem readExponent_numeral (text : List Char) :
    ∀ c ∈ (readExponent text).1, isNumeral c = true := by
  intro c hc
  unfold readExponent at hc
  split at hc
  · rename_i letter tail
    split at hc
    · rename_i hletter
      dsimp only at hc
      split at hc
      · cases hc
      · rw [List.cons_append, List.mem_cons, List.mem_append] at hc
        rcases hc with rfl | hc | hc
        · rcases hletter with rfl | rfl <;> decide
        · exact readSign_numeral tail c hc
        · exact isNumeral_of_isDigit (List.mem_takeWhile_imp hc)
    · cases hc
  · cases hc

/-- A text that is read as a decimal has only characters of numerals. -/
theorem isNumeral_of_unsigned? {negative : Bool} {text : List Char} {d : Decimal}
    (h : unsigned? negative text = some d) : ∀ c ∈ text, isNumeral c = true := by
  intro c hc
  unfold unsigned? at h
  dsimp only at h
  split at h
  · cases h
  · rename_i hparts
    rw [not_or, not_or, not_not] at hparts
    have hconcat := scan_concat text
    rw [hparts.2.1, List.append_nil] at hconcat
    rw [← hconcat, List.mem_append, List.mem_append] at hc
    rcases hc with (hc | hc) | hc
    · exact readInteger_numeral _ c hc
    · exact readFraction_numeral _ c hc
    · exact readExponent_numeral _ c hc

/-- **A numeral of a decimal has the characters of a numeral.** -/
theorem isNumeral_of_decimal? {numeral : List Char} {d : Decimal} (h : decimal? numeral = some d) :
    ∀ c ∈ numeral, isNumeral c = true := by
  intro c hc
  unfold decimal? at h
  split at h
  · rcases List.mem_cons.mp hc with rfl | hc
    · decide
    · exact isNumeral_of_unsigned? h c hc
  · exact isNumeral_of_unsigned? h c hc

/-- A natural number is no decimal with a fraction or an exponent. -/
theorem unsigned?_of_natural? {negative : Bool} {digits : List Char} {n : Nat}
    (h : natural? digits = some n) : unsigned? negative digits = none := by
  have hread := readInteger_toDigits n follows_nil
  rw [List.append_nil, ← natural?_eq_some_iff.mp h] at hread
  have hscan : scan digits = ⟨digits, [], [], []⟩ := by
    unfold scan
    rw [hread]
    rfl
  unfold unsigned?
  rw [hscan]
  exact if_pos (Or.inr (Or.inr ⟨rfl, rfl⟩))

/-- **A numeral of a decimal is not the numeral of an integer.** -/
theorem integer?_of_decimal? {numeral : List Char} {d : Decimal} (h : decimal? numeral = some d) :
    integer? numeral = none := by
  cases hint : integer? numeral with
  | none => rfl
  | some n =>
      unfold integer? at hint
      unfold decimal? at h
      split at hint
      · obtain ⟨m, hm, -⟩ := Option.map_eq_some_iff.mp hint
        have hnone := @unsigned?_of_natural? true _ _ hm
        exact absurd (hnone.symm.trans h) (by simp)
      · rename_i hplus
        obtain ⟨m, hm, -⟩ := Option.map_eq_some_iff.mp hint
        split at h
        · exact (hplus _ rfl).elim
        · rw [unsigned?_of_natural? hm] at h
          cases h

/-! ## Reading a numeral as a float -/

section Read

variable {P : Floats}

/-- The reader of an unsigned number, from the parts of its numeral. -/
theorem readUnsigned_eq (negative : Bool) (text : List Char) :
    readUnsigned (P := P) negative text =
      if (scan text).digits = [] then none
      else if (scan text).fraction = [] ∧ (scan text).exponent = [] then
        if intMaxStrDigits < (scan text).digits.length then none
        else some (.int (intOf negative (scan text).digits), (scan text).rest)
      else some (.float (P.ofNumeral ((if negative then ['-'] else []) ++ (scan text).digits ++
        (scan text).fraction ++ (scan text).exponent)), (scan text).rest) := rfl

/-- A decimal in front of other text is read as it is alone. -/
theorem readUnsigned_of_unsigned? {negative : Bool} {text rest : List Char} {d : Decimal}
    (h : unsigned? negative text = some d) (hrest : Follows rest) :
    readUnsigned (P := P) negative (text ++ rest) =
      some (.float (P.ofNumeral ((if negative then ['-'] else []) ++ text)), rest) := by
  unfold unsigned? at h
  dsimp only at h
  split at h
  · cases h
  · rename_i hparts
    rw [not_or, not_or, not_not] at hparts
    obtain ⟨hdigits, hend, hkind⟩ := hparts
    have hconcat := scan_concat text
    rw [hend, List.append_nil] at hconcat
    rw [readUnsigned_eq, scan_append hrest]
    dsimp only
    rw [if_neg hdigits, if_neg hkind, hend, List.nil_append, List.append_assoc, List.append_assoc,
      ← List.append_assoc (scan text).digits, hconcat]

/-- **A numeral of a decimal is read to its end.** -/
theorem readNumber_of_decimal? {numeral rest : List Char} {d : Decimal}
    (h : decimal? numeral = some d) (hrest : Follows rest) :
    PyJson.readNumber (P := P) (numeral ++ rest) = some (.float (P.ofNumeral numeral), rest) := by
  unfold decimal? at h
  split at h
  · exact readUnsigned_of_unsigned? h hrest
  · rename_i hplus
    have hread := readUnsigned_of_unsigned? (P := P) h hrest
    rw [if_neg (by decide), List.nil_append] at hread
    rw [← hread]
    unfold PyJson.readNumber
    split
    · rename_i tail heq
      rcases numeral with _ | ⟨c, numeral⟩
      · cases h
      · rw [List.cons_append] at heq
        exact (hplus numeral ((List.cons.inj heq).1 ▸ rfl)).elim
    · rfl

end Read

/-! ## The two shapes of a numeral -/

/-- The digits of an integer part. -/
structure IsInteger (digits : List Char) : Prop where
  isDigit : ∀ c ∈ digits, c.isDigit = true
  ne_nil : digits ≠ []
  head : digits.head? = some '0' → digits = ['0']

theorem readInteger_of_isInteger {digits rest : List Char} (h : IsInteger digits)
    (hrest : Stops rest) : readInteger (digits ++ rest) = (digits, rest) := by
  have htake : digits.takeWhile Char.isDigit = digits := List.takeWhile_eq_self_iff.mpr h.isDigit
  have hdrop : digits.dropWhile Char.isDigit = [] := List.dropWhile_eq_nil_iff.mpr h.isDigit
  have hdigits : readInteger digits = (digits, []) := by
    unfold readInteger
    split
    · have hzero := h.head rfl
      rw [(List.cons.inj hzero).2]
    · rw [htake, hdrop]
  rw [readInteger_append hrest, hdigits]
  rfl

/-- A point and digits are read as the fraction. -/
theorem readFraction_of_digits {digits rest : List Char} (h : ∀ c ∈ digits, c.isDigit = true)
    (hne : digits ≠ []) (hrest : Stops rest) :
    readFraction ('.' :: digits ++ rest) = ('.' :: digits, rest) := by
  obtain ⟨htake, hdrop⟩ := @takeWhile_stops digits rest hrest
  rw [List.takeWhile_eq_self_iff.mpr h] at htake
  rw [List.dropWhile_eq_nil_iff.mpr h, List.nil_append] at hdrop
  rw [List.cons_append, readFraction, htake, hdrop, if_neg hne]

/-- **A positional numeral**: its digits, as many of them behind the point as the exponent says. -/
theorem decimal?_fixed {digits fraction : List Char} (negative : Bool) (h : IsInteger digits)
    (hfraction : ∀ c ∈ fraction, c.isDigit = true) (hne : fraction ≠ []) :
    unsigned? negative (digits ++ '.' :: fraction) =
      some ⟨negative, Nat.ofDigitChars 10 (digits ++ fraction) 0, -(fraction.length : Int)⟩ := by
  have hpoint : Stops ('.' :: fraction) := by
    intro c hc
    rw [← Option.some.inj hc]
    decide
  have hscan : scan (digits ++ '.' :: fraction) = ⟨digits, '.' :: fraction, [], []⟩ := by
    have hread := readFraction_of_digits hfraction hne (stops_of_follows follows_nil)
    rw [List.append_nil] at hread
    unfold scan
    rw [readInteger_of_isInteger h hpoint]
    dsimp only
    rw [hread]
    rfl
  unfold unsigned?
  rw [hscan]
  dsimp only
  rw [if_neg]
  · rw [List.tail_cons, exponentValue, Int.zero_sub]
  · simp [h.ne_nil]

/-- The text of a signed exponent. -/
def exponentText (exponent : Int) : List Char :=
  if 0 ≤ exponent then '+' :: intText exponent else intText exponent

/-- The text of an exponent is read back as that exponent. -/
theorem readExponent_exponentText (exponent : Int) :
    readExponent ('e' :: exponentText exponent) = ('e' :: exponentText exponent, []) ∧
      exponentValue ('e' :: exponentText exponent) = exponent := by
  have hdigits : ∀ c ∈ Nat.toDigits 10 exponent.natAbs, c.isDigit = true :=
    fun c hc => isDigit_of_mem_toDigits hc
  have htake := List.takeWhile_eq_self_iff.mpr hdigits
  have hdrop := List.dropWhile_eq_nil_iff.mpr hdigits
  unfold exponentText intText
  split
  · rename_i hnonneg
    have hneg : ¬ exponent < 0 := Int.not_lt.mpr hnonneg
    rw [if_neg hneg]
    constructor
    · rw [readExponent, if_pos (Or.inl rfl), readSign]
      dsimp only
      rw [htake, hdrop, if_neg Nat.toDigits_ne_nil]
      rfl
    · rw [exponentValue, Nat.ofDigitChars_ten_toDigits]
      omega
  · rename_i hneg
    rw [if_pos (Int.not_le.mp hneg)]
    constructor
    · rw [readExponent, if_pos (Or.inl rfl), readSign]
      dsimp only
      rw [htake, hdrop, if_neg Nat.toDigits_ne_nil]
      rfl
    · rw [exponentValue, Nat.ofDigitChars_ten_toDigits]
      omega

/-- The fraction part of a mantissa; without digits there is no point. -/
def fractionText (digits : List Char) : List Char := if digits = [] then [] else '.' :: digits

/-- **A scientific numeral.** -/
theorem decimal?_scientific {digits fraction : List Char} (negative : Bool) (exponent : Int)
    (h : IsInteger digits) (hfraction : ∀ c ∈ fraction, c.isDigit = true) :
    unsigned? negative (digits ++ (fractionText fraction ++ 'e' :: exponentText exponent)) =
      some ⟨negative, Nat.ofDigitChars 10 (digits ++ fraction) 0, exponent - fraction.length⟩ := by
  obtain ⟨hread, hvalue⟩ := readExponent_exponentText exponent
  have hletter : Stops ('e' :: exponentText exponent) := by
    intro c hc
    rw [← Option.some.inj hc]
    decide
  have hscan : scan (digits ++ (fractionText fraction ++ 'e' :: exponentText exponent)) =
      ⟨digits, fractionText fraction, 'e' :: exponentText exponent, []⟩ := by
    unfold scan fractionText
    by_cases hne : fraction = []
    · rw [if_pos hne, List.nil_append, readInteger_of_isInteger h hletter]
      dsimp only
      rw [show readFraction ('e' :: exponentText exponent) = ([], 'e' :: exponentText exponent)
        from rfl]
      dsimp only
      rw [hread]
    · have hpoint : Stops ('.' :: fraction ++ 'e' :: exponentText exponent) := by
        intro c hc
        rw [← Option.some.inj hc]
        decide
      rw [if_neg hne, readInteger_of_isInteger h hpoint]
      dsimp only
      rw [readFraction_of_digits hfraction hne hletter]
      dsimp only
      rw [hread]
  have htail : (fractionText fraction).tail = fraction := by
    unfold fractionText
    split
    · rename_i hnil
      exact hnil.symm
    · rfl
  unfold unsigned?
  rw [hscan]
  dsimp only
  rw [if_neg, htail, hvalue]
  simp [h.ne_nil]

end Numeral
