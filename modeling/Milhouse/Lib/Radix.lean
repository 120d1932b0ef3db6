import Mathlib.Data.List.Basic
import Mathlib.Data.List.Lemmas
import Mathlib.Data.Nat.Notation
import Mathlib.Logic.Function.Basic

/-!
# Radix — the hex and base32 texts of bytes

The hex text writes each byte as two lowercase digits. The base32 text cuts the bits of all bytes
into fives, fills the last one with zeros and writes each as a lowercase letter or digit, without
padding characters.

* **`hex_injective`**, **`base32_injective`** — either text determines the bytes.
-/

namespace Radix

/-- Pieces of one positive length determine what they were made from. -/
theorem flatMap_injective {α β : Type} {f : α → List β} {size : Nat} (hsize : 0 < size)
    (hlength : ∀ a, (f a).length = size) (hf : Function.Injective f) :
    Function.Injective (List.flatMap f) := by
  intro xs
  induction xs with
  | nil =>
      intro ys h
      cases ys with
      | nil => rfl
      | cons y ys =>
          have hlen := congrArg List.length h
          rw [List.flatMap_nil, List.flatMap_cons, List.length_append, hlength] at hlen
          simp only [List.length_nil] at hlen
          omega
  | cons x xs ih =>
      intro ys h
      cases ys with
      | nil =>
          have hlen := congrArg List.length h
          rw [List.flatMap_nil, List.flatMap_cons, List.length_append, hlength] at hlen
          simp only [List.length_nil] at hlen
          omega
      | cons y ys =>
          rw [List.flatMap_cons, List.flatMap_cons] at h
          obtain ⟨hhead, htail⟩ := List.append_inj h ((hlength x).trans (hlength y).symm)
          rw [hf hhead, ih htail]

/-! ## Hex -/

/-- The two digits of a byte. -/
def hexByte (b : UInt8) : List Char := [Nat.digitChar (b.toNat / 16), Nat.digitChar (b.toNat % 16)]

/-- `bytes.hex()`. -/
def hex (bytes : List UInt8) : List Char := bytes.flatMap hexByte

theorem mem_hex {bytes : List UInt8} {c : Char} (h : c ∈ hex bytes) :
    ∃ n < 16, c = Nat.digitChar n := by
  obtain ⟨b, -, hc⟩ := List.mem_flatMap.mp h
  have hb := b.toNat_lt
  simp only [hexByte, List.mem_cons, List.not_mem_nil, or_false] at hc
  rcases hc with rfl | rfl
  · exact ⟨b.toNat / 16, by omega, rfl⟩
  · exact ⟨b.toNat % 16, by omega, rfl⟩

theorem digitChar_inj : ∀ m < 16, ∀ n < 16, Nat.digitChar m = Nat.digitChar n → m = n := by decide

/-- Two hexadecimal digits tell the byte. -/
theorem hexByte_injective : Function.Injective hexByte := by
  intro a b h
  have ha := a.toNat_lt
  have hb := b.toNat_lt
  obtain ⟨hhigh, hlow, -⟩ : Nat.digitChar (a.toNat / 16) = Nat.digitChar (b.toNat / 16) ∧
      Nat.digitChar (a.toNat % 16) = Nat.digitChar (b.toNat % 16) ∧ True := by
    simpa [hexByte] using h
  have hdiv := digitChar_inj _ (by omega) _ (by omega) hhigh
  have hmod := digitChar_inj _ (by omega) _ (by omega) hlow
  apply UInt8.toNat_inj.mp
  omega

/-- **The hex text determines the bytes.** -/
theorem hex_injective : Function.Injective hex :=
  flatMap_injective Nat.two_pos (fun _ => rfl) hexByte_injective

/-! ## Base32 -/

/-- The bits of a byte, the highest first. -/
def bits (b : UInt8) : List Bool :=
  [b.toNat.testBit 7, b.toNat.testBit 6, b.toNat.testBit 5, b.toNat.testBit 4, b.toNat.testBit 3,
    b.toNat.testBit 2, b.toNat.testBit 1, b.toNat.testBit 0]

/-- The number of five bits. -/
def quintet (a b c d e : Bool) : Nat :=
  16 * a.toNat + 8 * b.toNat + 4 * c.toNat + 2 * d.toNat + e.toNat

/-- Bits in fives; the last ones are filled with zeros. -/
def quintets : List Bool → List Nat
  | a :: b :: c :: d :: e :: rest => quintet a b c d e :: quintets rest
  | [] => []
  | [a] => [quintet a false false false false]
  | [a, b] => [quintet a b false false false]
  | [a, b, c] => [quintet a b c false false]
  | [a, b, c, d] => [quintet a b c d false]

def alphabet : List Char := "abcdefghijklmnopqrstuvwxyz234567".toList

def letter (n : Nat) : Char := alphabet.getD n 'a'

/-- `base64.b32encode(bytes)` in lowercase, without padding. -/
def base32 (bytes : List UInt8) : List Char := (quintets (bytes.flatMap bits)).map letter

theorem letter_inj : ∀ m < 32, ∀ n < 32, letter m = letter n → m = n := by decide

/-- The five bits of a number. -/
def unquintet (n : Nat) : List Bool :=
  [n.testBit 4, n.testBit 3, n.testBit 2, n.testBit 1, n.testBit 0]

/-- Five bits are read back from their number. -/
theorem unquintet_quintet (a b c d e : Bool) : unquintet (quintet a b c d e) = [a, b, c, d, e] := by
  cases a <;> cases b <;> cases c <;> cases d <;> cases e <;> rfl

theorem quintet_lt (a b c d e : Bool) : quintet a b c d e < 32 := by
  cases a <;> cases b <;> cases c <;> cases d <;> cases e <;> decide

theorem lt_of_mem_quintets {bs : List Bool} {n : Nat} (h : n ∈ quintets bs) : n < 32 := by
  fun_induction quintets bs with
  | case1 a b c d e rest ih =>
      rcases List.mem_cons.mp h with rfl | h
      · exact quintet_lt a b c d e
      · exact ih h
  | case2 => cases h
  | case3 a => exact List.mem_singleton.mp h ▸ quintet_lt _ _ _ _ _
  | case4 a b => exact List.mem_singleton.mp h ▸ quintet_lt _ _ _ _ _
  | case5 a b c => exact List.mem_singleton.mp h ▸ quintet_lt _ _ _ _ _
  | case6 a b c d => exact List.mem_singleton.mp h ▸ quintet_lt _ _ _ _ _

/-- The fives give the bits back, with fewer than five zeros behind them. -/
theorem flatMap_quintets (bs : List Bool) : ∃ zeros, zeros < 5 ∧
    (quintets bs).flatMap unquintet = bs ++ List.replicate zeros false := by
  fun_induction quintets bs with
  | case1 a b c d e rest ih =>
      obtain ⟨zeros, hlt, hrest⟩ := ih
      refine ⟨zeros, hlt, ?_⟩
      rw [List.flatMap_cons, unquintet_quintet, hrest]
      rfl
  | case2 => exact ⟨0, by decide, rfl⟩
  | case3 a => exact ⟨4, by decide, by simp [unquintet_quintet]⟩
  | case4 a b => exact ⟨3, by decide, by simp [unquintet_quintet]⟩
  | case5 a b c => exact ⟨2, by decide, by simp [unquintet_quintet]⟩
  | case6 a b c d => exact ⟨1, by decide, by simp [unquintet_quintet]⟩

/-- The last group may be padded with four bits at most. -/
theorem length_quintets_le (bs : List Bool) : 5 * (quintets bs).length ≤ bs.length + 4 := by
  fun_induction quintets bs with
  | case1 a b c d e rest ih =>
      simp only [List.length_cons]
      omega
  | case2 => exact Nat.zero_le _
  | case3 a => exact Nat.le_refl _
  | case4 a b => exact Nat.le_succ _
  | case5 a b c => exact Nat.le_add_right 5 2
  | case6 a b c d => exact Nat.le_add_right 5 3

/-- The letters of a word tell its numbers. -/
theorem map_letter_inj {xs ys : List Nat} (hxs : ∀ n ∈ xs, n < 32) (hys : ∀ n ∈ ys, n < 32)
    (h : xs.map letter = ys.map letter) : xs = ys := by
  induction xs generalizing ys with
  | nil => exact (List.map_eq_nil_iff.mp h.symm).symm
  | cons x xs ih =>
      cases ys with
      | nil => cases h
      | cons y ys =>
          obtain ⟨hhead, htail⟩ := List.cons.inj h
          rw [letter_inj x (hxs x List.mem_cons_self) y (hys y List.mem_cons_self) hhead,
            ih (fun n hn => hxs n (List.mem_cons_of_mem _ hn))
              (fun n hn => hys n (List.mem_cons_of_mem _ hn)) htail]

/-- The number of some bits, the highest first. -/
def ofBits (bs : List Bool) : Nat := bs.foldl (fun n b => 2 * n + b.toNat) 0

theorem ofBits_bits (b : UInt8) : ofBits (bits b) = b.toNat := by
  have hback : ∀ n < 256, ofBits [n.testBit 7, n.testBit 6, n.testBit 5, n.testBit 4, n.testBit 3,
      n.testBit 2, n.testBit 1, n.testBit 0] = n := by decide +kernel
  exact hback b.toNat b.toNat_lt

/-- The bits of a byte tell the byte. -/
theorem bits_injective : Function.Injective bits := by
  intro a b h
  apply UInt8.toNat_inj.mp
  rw [← ofBits_bits a, h, ofBits_bits]

theorem length_flatMap_bits (bytes : List UInt8) :
    (bytes.flatMap bits).length = 8 * bytes.length := by
  induction bytes with
  | nil => rfl
  | cons b bytes ih =>
      rw [List.flatMap_cons, List.length_append, ih, List.length_cons]
      show 8 + 8 * bytes.length = _
      omega

/-- **The base32 text determines the bytes.** -/
theorem base32_injective : Function.Injective base32 := by
  intro xs ys h
  have hquintets := map_letter_inj (fun _ => lt_of_mem_quintets) (fun _ => lt_of_mem_quintets) h
  obtain ⟨zeros, hzeros, hxs⟩ := flatMap_quintets (xs.flatMap bits)
  obtain ⟨zeros', hzeros', hys⟩ := flatMap_quintets (ys.flatMap bits)
  rw [hquintets, hys] at hxs
  -- both are a number of bytes and fewer than five zeros, so as many zeros
  have hlen := congrArg List.length hxs
  rw [List.length_append, List.length_append, length_flatMap_bits, length_flatMap_bits,
    List.length_replicate, List.length_replicate] at hlen
  have hsame := List.append_inj_left hxs (by rw [length_flatMap_bits, length_flatMap_bits]; omega)
  have height : 0 < 8 := by decide
  exact (flatMap_injective height (fun _ => rfl) bits_injective hsame).symm

/-- Base 32 needs a letter for each five bits, rounded up. -/
theorem length_base32_le (bytes : List UInt8) :
    5 * (base32 bytes).length ≤ 8 * bytes.length + 4 := by
  rw [base32, List.length_map, ← length_flatMap_bits]
  exact length_quintets_le _

theorem length_hex (bytes : List UInt8) : (hex bytes).length = 2 * bytes.length := by
  induction bytes with
  | nil => rfl
  | cons b bytes ih =>
      rw [hex, List.flatMap_cons, List.length_append, ← hex, ih, List.length_cons]
      show 2 + 2 * bytes.length = _
      omega

end Radix
