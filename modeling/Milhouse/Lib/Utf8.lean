import Mathlib.Data.Char
import Mathlib.Data.List.Lex
import Mathlib.Data.String.Basic

/-!
# Utf8 — the order of UTF-8 encodings

Texts in the order of their code points are encoded in the order of their bytes, so that sorting by
either is the same, and two texts with the same bytes are equal.

* **`encode_lt_encode`** — the encoding keeps the order;
* `encode_injective` — and therefore distinguishes texts.
-/

namespace Utf8

/-- The bytes of a text. -/
def encode (text : List Char) : List UInt8 := text.flatMap String.utf8EncodeChar

/-- The lower of two numbers has the lower digits in base 64. -/
theorem digits_lt {m n : Nat} (h : m < n) :
    m / 262144 < n / 262144 ∨ m / 262144 = n / 262144 ∧
      (m / 4096 % 64 < n / 4096 % 64 ∨ m / 4096 % 64 = n / 4096 % 64 ∧
        (m / 64 % 64 < n / 64 % 64 ∨ m / 64 % 64 = n / 64 % 64 ∧ m % 64 < n % 64)) := by
  omega

/-- A lower character has lower bytes, whatever follows either. -/
theorem encodeChar_lt {c d : Char} (h : c < d) (after after' : List UInt8) :
    String.utf8EncodeChar c ++ after < String.utf8EncodeChar d ++ after' := by
  have hlt : c.val.toNat < d.val.toNat := h
  have hmax : d.val.toNat < 1114112 := by
    have := d.valid
    simp only [UInt32.isValidChar, Nat.isValidChar] at this
    omega
  have hdigits := digits_lt hlt
  -- the leading byte tells how many bytes there are; past it, the digits in base 64 decide
  unfold String.utf8EncodeChar
  dsimp only
  repeat' split
  all_goals
    simp only [List.cons_append, List.nil_append, List.cons_lt_cons_iff, UInt8.lt_iff_toNat_lt,
      ← UInt8.toNat_inj, UInt8.toNat_ofNat', Nat.reducePow]
    simp (disch := omega) only [Nat.mod_eq_of_lt]
    omega

theorem encode_cons (c : Char) (text : List Char) :
    encode (c :: text) = String.utf8EncodeChar c ++ encode text := rfl

/-- Bytes that start alike are compared behind the start. -/
theorem encode_append (text text' : List Char) :
    encode (text ++ text') = encode text ++ encode text' :=
  List.flatMap_append

/-- A text has no more characters than bytes. -/
theorem length_le_length_encode (text : List Char) : text.length ≤ (encode text).length := by
  induction text with
  | nil => exact Nat.le_refl _
  | cons c text ih =>
      have hpos := Char.utf8Size_pos c
      rw [encode_cons, List.length_append, String.length_utf8EncodeChar, List.length_cons]
      omega

/-- Rewriting every character to something that takes as many bytes makes no text shorter. -/
theorem length_encode_le_flatMap {code : Char → List Char}
    (h : ∀ c, c.utf8Size ≤ (encode (code c)).length) (text : List Char) :
    (encode text).length ≤ (encode (text.flatMap code)).length := by
  induction text with
  | nil => exact Nat.le_refl _
  | cons c text ih =>
      have hc := h c
      rw [encode_cons, List.flatMap_cons, encode_append, List.length_append, List.length_append,
        String.length_utf8EncodeChar]
      omega

theorem append_lt_append_left (start : List UInt8) {after after' : List UInt8}
    (h : after < after') : start ++ after < start ++ after' := by
  induction start with
  | nil => exact h
  | cons b start ih =>
      rw [List.cons_append, List.cons_append, List.cons_lt_cons_iff]
      exact Or.inr ⟨rfl, ih⟩

/-- **The encoding keeps the order of texts.** -/
theorem encode_lt_encode {text text' : List Char} (h : text < text') :
    encode text < encode text' := by
  induction text generalizing text' with
  | nil =>
      cases text' with
      | nil => exact absurd h (lt_irrefl _)
      | cons d text' =>
          rw [encode_cons]
          obtain ⟨b, bytes, hbytes⟩ := List.exists_cons_of_ne_nil (@String.utf8EncodeChar_ne_nil d)
          rw [hbytes, List.cons_append]
          exact List.nil_lt_cons _ _
  | cons c text ih =>
      cases text' with
      | nil => exact absurd h (List.not_lt_nil _)
      | cons d text' =>
          rw [encode_cons, encode_cons]
          rcases List.cons_lt_cons_iff.mp h with hlt | ⟨rfl, hlt⟩
          · exact encodeChar_lt hlt _ _
          · exact append_lt_append_left _ (ih hlt)

/-- **The encoding distinguishes texts.** -/
theorem encode_injective : Function.Injective encode := by
  intro text text' h
  rcases lt_trichotomy text text' with hlt | heq | hgt
  · exact absurd (h ▸ encode_lt_encode hlt) (List.lt_irrefl _)
  · exact heq
  · exact absurd (h ▸ encode_lt_encode hgt) (List.lt_irrefl _)

end Utf8
