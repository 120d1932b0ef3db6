import Milhouse.Core.Canonical
import Milhouse.Lib.Numeral

/-!
# Milhouse — floats in canonical JSON

A `CanonicalPlatform` is the part of the language the encoder rests on, with what is known of it:
floats that read back from their shortest decimals, and the normalization of text. `decimalText` is
the second half of `_serialize_float`.

* **`decimal?_decimalText`** — the text of a decimal with digits behind its point denotes exactly
  that decimal, in each range of magnitudes;
* `CanonicalPlatform.fractions`, `CanonicalPlatform.numerals` — the non-integral floats as the
  fractions of JSON, and how `json.loads` reads them.
-/

namespace Milhouse

open Json Numeral

/-! ## The text of a decimal -/

/-- The text of the digits of a decimal, without its sign. -/
def decimalBody (d : Decimal) : List Char :=
  let digits := Nat.toDigits 10 d.coefficient
  let digitCount := digits.length
  let decimalPosition : Int := digitCount + d.exponent
  if 0 < decimalPosition ∧ decimalPosition ≤ 21 then
    digits.take decimalPosition.toNat ++ '.' :: digits.drop decimalPosition.toNat
  else if -6 < decimalPosition ∧ decimalPosition ≤ 0 then
    ['0'] ++ '.' :: (List.replicate (-decimalPosition).toNat '0' ++ digits)
  else
    let mantissa :=
      if digitCount = 1 then digits.take 1 else digits.take 1 ++ '.' :: digits.drop 1
    mantissa ++ 'e' :: exponentText (decimalPosition - 1)

/-- The text of a decimal. -/
def decimalText (d : Decimal) : List Char :=
  if d.negative then '-' :: decimalBody d else decimalBody d

section Text

variable {d : Decimal}

/-- Digits at the front of a decimal text are an integer part, unless the text is cut behind a `0`. -/
theorem isInteger_take {n k : Nat} (hpos : 0 < k)
    (hzero : (Nat.toDigits 10 n).head? = some '0' → k = 1) :
    IsInteger ((Nat.toDigits 10 n).take k) where
  isDigit c hc := isDigit_of_mem_toDigits (List.mem_of_mem_take hc)
  ne_nil := by
    rw [Ne, List.take_eq_nil_iff, not_or]
    exact ⟨Nat.ne_of_gt hpos, Nat.toDigits_ne_nil⟩
  head := by
    obtain ⟨c, tail, htext⟩ := List.exists_cons_of_ne_nil (@Nat.toDigits_ne_nil n 10)
    obtain ⟨k, rfl⟩ := Nat.exists_eq_add_one_of_ne_zero (Nat.ne_of_gt hpos)
    rw [htext] at hzero ⊢
    intro hhead
    rw [List.take_succ_cons, List.head?_cons] at hhead
    have hk : k + 1 = 1 := hzero hhead
    rw [Nat.succ.inj hk, List.take_succ_cons, List.take_zero, Option.some.inj hhead]

theorem isInteger_zero : IsInteger ['0'] where
  isDigit c hc := by
    rw [List.mem_singleton.mp hc]
    decide
  ne_nil := List.cons_ne_nil _ _
  head _ := rfl

/-- The digits of a coefficient, whether zeros stand before them or not. -/
theorem ofDigitChars_zeros (k n : Nat) :
    Nat.ofDigitChars 10 (['0'] ++ (List.replicate k '0' ++ Nat.toDigits 10 n)) 0 = n := by
  have hzeros : ∀ k, Nat.ofDigitChars 10 (List.replicate k '0') 0 = 0 := by
    intro k
    induction k with
    | zero => rfl
    | succ k ih => rw [List.replicate_succ, Nat.ofDigitChars_cons]; exact ih
  rw [← List.append_assoc, show ['0'] ++ List.replicate k '0' = List.replicate (k + 1) '0' from rfl,
    Nat.ofDigitChars_append, hzeros, Nat.ofDigitChars_ten_toDigits]

/-- **The body of a decimal denotes it**, where some of its digits are behind the point. -/
theorem unsigned?_decimalBody (h : d.exponent < 0) :
    unsigned? d.negative (decimalBody d) = some d := by
  obtain ⟨negative, coefficient, exponent⟩ := d
  have hdigits : ∀ c ∈ Nat.toDigits 10 coefficient, c.isDigit = true :=
    fun c hc => isDigit_of_mem_toDigits hc
  have hlength : 0 < (Nat.toDigits 10 coefficient).length := Nat.length_toDigits_pos
  have hsplit : ∀ k, (Nat.toDigits 10 coefficient).take k ++ (Nat.toDigits 10 coefficient).drop k =
      Nat.toDigits 10 coefficient := fun k => List.take_append_drop k _
  unfold decimalBody
  dsimp only at h ⊢
  split
  · -- the point is inside the digits
    rename_i hinside
    have hdrop : ∀ c ∈ (Nat.toDigits 10 coefficient).drop
        (((Nat.toDigits 10 coefficient).length : Int) + exponent).toNat, c.isDigit = true :=
      fun c hc => hdigits c (List.mem_of_mem_drop hc)
    have hzero : (Nat.toDigits 10 coefficient).head? = some '0' →
        (((Nat.toDigits 10 coefficient).length : Int) + exponent).toNat = 1 := by
      intro hhead
      have hone := congrArg List.length (toDigits_eq_zero_of_head? coefficient hhead)
      rw [List.length_singleton] at hone
      omega
    have hne : (Nat.toDigits 10 coefficient).drop
        (((Nat.toDigits 10 coefficient).length : Int) + exponent).toNat ≠ [] := by
      rw [Ne, List.drop_eq_nil_iff]
      omega
    rw [decimal?_fixed negative (isInteger_take (by omega) hzero) hdrop hne, hsplit,
      Nat.ofDigitChars_ten_toDigits, List.length_drop]
    congr 2
    omega
  · split
    · -- zeros stand between the point and the digits
      rename_i hbefore
      have hfraction : ∀ c ∈ List.replicate
          (-(((Nat.toDigits 10 coefficient).length : Int) + exponent)).toNat '0' ++
            Nat.toDigits 10 coefficient, c.isDigit = true := by
        intro c hc
        rcases List.mem_append.mp hc with hc | hc
        · rw [List.eq_of_mem_replicate hc]
          decide
        · exact hdigits c hc
      rw [decimal?_fixed negative isInteger_zero hfraction (by simp), ofDigitChars_zeros,
        List.length_append, List.length_replicate]
      congr 2
      omega
    · -- an exponent part
      have hmantissa : (if (Nat.toDigits 10 coefficient).length = 1 then
          (Nat.toDigits 10 coefficient).take 1
        else (Nat.toDigits 10 coefficient).take 1 ++ '.' :: (Nat.toDigits 10 coefficient).drop 1) =
          (Nat.toDigits 10 coefficient).take 1 ++
            fractionText ((Nat.toDigits 10 coefficient).drop 1) := by
        unfold fractionText
        by_cases hone : (Nat.toDigits 10 coefficient).length = 1
        · rw [if_pos hone, if_pos (List.drop_eq_nil_of_le (Nat.le_of_eq hone)), List.append_nil]
        · rw [if_neg hone, if_neg]
          rw [List.drop_eq_nil_iff]
          omega
      rw [hmantissa, List.append_assoc, decimal?_scientific negative _
        (isInteger_take Nat.one_pos fun _ => rfl) fun c hc => hdigits c (List.mem_of_mem_drop hc),
        hsplit, Nat.ofDigitChars_ten_toDigits, List.length_drop]
      congr 2
      omega

theorem decimalBody_head (d : Decimal) : (decimalBody d).head? ≠ some '-' := by
  have hdigit : ∀ k rest, 0 < k →
      ((Nat.toDigits 10 d.coefficient).take k ++ rest).head? ≠ some '-' := by
    intro k rest hk
    obtain ⟨c, tail, htext⟩ := List.exists_cons_of_ne_nil (@Nat.toDigits_ne_nil d.coefficient 10)
    obtain ⟨k, rfl⟩ := Nat.exists_eq_add_one_of_ne_zero (Nat.ne_of_gt hk)
    have hc : c.isDigit = true :=
      isDigit_of_mem_toDigits (htext ▸ List.mem_cons_self)
    rw [htext, List.take_succ_cons, List.cons_append, List.head?_cons]
    intro hminus
    rw [Option.some.inj hminus] at hc
    exact absurd hc (by decide)
  unfold decimalBody
  dsimp only
  split
  · exact hdigit _ _ (by omega)
  · split
    · exact fun hminus => absurd (Option.some.inj hminus) (by decide)
    · split
      · exact hdigit _ _ Nat.one_pos
      · rw [List.append_assoc]
        exact hdigit _ _ Nat.one_pos

/-- **The text of a decimal denotes exactly that decimal.** -/
theorem decimal?_decimalText (h : d.exponent < 0) : decimal? (decimalText d) = some d := by
  have hbody := unsigned?_decimalBody h
  unfold decimalText
  split
  · rename_i hnegative
    rw [hnegative] at hbody
    exact hbody
  · rename_i hpositive
    rw [Bool.not_eq_true] at hpositive
    rw [hpositive] at hbody
    unfold decimal?
    split
    · rename_i tail heq
      exact absurd (congrArg List.head? heq) (decimalBody_head d)
    · exact hbody

end Text

/-! ## The platform -/

/-- What canonical JSON rests on, with what is known of it. -/
structure CanonicalPlatform where
  Float : Type
  isFinite : Float → Bool
  /-- `int(value)`, where `value.is_integer()`. -/
  integral : Float → Option Int
  /-- `Decimal(repr(value))`. -/
  shortest : Float → Decimal
  /-- `float(text)`, of a text that denotes the decimal. -/
  ofDecimal : Decimal → Float
  inf : Float
  negInf : Float
  nan : Float
  /-- `unicodedata.normalize("NFC", text)`. -/
  nfc : String → String
  /-- `repr` gives a text that reads back. -/
  ofDecimal_shortest : ∀ x, isFinite x = true → integral x = none → ofDecimal (shortest x) = x
  /-- The shortest decimal of a float that is not integral is no integer either. -/
  shortest_exponent : ∀ x, isFinite x = true → integral x = none → (shortest x).exponent < 0
  nfc_ascii : ∀ text, (∀ c ∈ text.toList, c.toNat < 128) → nfc text = text
  nfc_nfc : ∀ text, nfc (nfc text) = nfc text
  /-- No text composes to a carriage return. -/
  nfc_return : ∀ text, '\r' ∉ text.toList → '\r' ∉ (nfc text).toList

namespace CanonicalPlatform

variable (P : CanonicalPlatform)

/-- The encoder on a platform. -/
def runtime : CanonicalRuntime where
  Float := P.Float
  isFinite := P.isFinite
  integral := P.integral
  floatText x := decimalText (P.shortest x)
  nfc := P.nfc
  nfc_ascii := P.nfc_ascii

/-- A finite float that is not integral. -/
abbrev Fraction : Type := { x : P.Float // P.isFinite x = true ∧ P.integral x = none }

/-- The float of a numeral, where it is a fraction. -/
def readFraction (numeral : List Char) : Option P.Fraction :=
  (decimal? numeral).bind fun d =>
    if h : P.isFinite (P.ofDecimal d) = true ∧ P.integral (P.ofDecimal d) = none then
      some ⟨P.ofDecimal d, h⟩
    else none

variable {P}

theorem decimal?_text (x : P.Fraction) :
    decimal? (decimalText (P.shortest x.1)) = some (P.shortest x.1) :=
  decimal?_decimalText (P.shortest_exponent x.1 x.2.1 x.2.2)

theorem readFraction_text (x : P.Fraction) : P.readFraction (decimalText (P.shortest x.1)) = some x := by
  obtain ⟨value, hfinite, hintegral⟩ := x
  unfold readFraction
  rw [decimal?_text, Option.bind_some]
  dsimp only
  rw [dif_pos]
  · congr 1
    exact Subtype.ext (P.ofDecimal_shortest value hfinite hintegral)
  · rw [P.ofDecimal_shortest value hfinite hintegral]
    exact ⟨hfinite, hintegral⟩

theorem ofDecimal_of_readFraction {numeral : List Char} {x : P.Fraction}
    (h : P.readFraction numeral = some x) :
    ∃ d, decimal? numeral = some d ∧ P.ofDecimal d = x.1 := by
  obtain ⟨d, hd, hx⟩ := Option.bind_eq_some_iff.mp h
  split at hx
  · exact ⟨d, hd, congrArg Subtype.val (Option.some.inj hx)⟩
  · cases hx

variable (P)

/-- The fractions of JSON on a platform. -/
def fractions : Fractions where
  Number := P.Fraction
  text x := decimalText (P.shortest x.1)
  read := P.readFraction
  read_text := readFraction_text
  text_numeral x := isNumeral_of_decimal? (decimal?_text x)
  text_ne_nil x := by
    intro hnil
    have h := decimal?_text x
    rw [hnil] at h
    cases h
  integer?_text x := integer?_of_decimal? (decimal?_text x)

/-- The floats of `json.loads`. -/
def floats : PyJson.Floats where
  Float := P.Float
  ofNumeral numeral := ((decimal? numeral).map P.ofDecimal).getD P.nan
  inf := P.inf
  negInf := P.negInf
  nan := P.nan

/-- How `json.loads` reads a fraction. -/
def numerals : PyJson.Numerals P.fractions P.floats where
  float := Subtype.val
  readNumber numeral x _ hread rest hrest := by
    obtain ⟨d, hd, hfloat⟩ := ofDecimal_of_readFraction hread
    rw [readNumber_of_decimal? hd hrest, ← hfloat]
    show some (PyJson.Obj.float (((decimal? numeral).map P.ofDecimal).getD P.nan), rest) = _
    rw [hd]
    rfl

end CanonicalPlatform

end Milhouse
