import Mathlib.Data.List.Infix

/-!
# Find — where a text occurs in another

`find?` is the first occurrence, `positions` are the occurrences that a search meets which goes on a
fixed number of characters after the start of each, and `replaceAll` replaces the occurrences that do
not overlap, from the left.

* **`isPrefix_drop_of_mem_positions`** — the text stands at every position that is found;
* **`replaceAll_eq_or_lt`** — replacing something by something smaller leaves a text alone, or makes
  it smaller.
-/

namespace Find

variable {α : Type} [DecidableEq α]

/-- `text.find(sub)`. -/
def find? (sub : List α) : List α → Option Nat
  | [] => if sub = [] then some 0 else none
  | c :: rest => if sub <+: c :: rest then some 0 else (find? sub rest).map (· + 1)

theorem isPrefix_of_find? {sub text : List α} {i : Nat} (h : find? sub text = some i) :
    sub <+: text.drop i := by
  induction text generalizing i with
  | nil =>
      rw [find?] at h
      split at h
      · rename_i heq
        rw [heq]
        exact List.nil_prefix
      · cases h
  | cons c rest ih =>
      rw [find?] at h
      split at h
      · rename_i hpre
        rw [← Option.some.inj h]
        exact hpre
      · obtain ⟨j, hj, rfl⟩ := Option.map_eq_some_iff.mp h
        exact ih hj

theorem find?_of_isPrefix {sub text : List α} (h : sub <+: text) : find? sub text = some 0 := by
  cases text with
  | nil => rw [find?, if_pos (List.prefix_nil.mp h)]
  | cons c rest => rw [find?, if_pos h]

/-- What does not occur is not found. -/
theorem find?_eq_none {sub text : List α} {c : α} (hc : c ∈ sub) (h : c ∉ text) :
    find? sub text = none := by
  induction text with
  | nil =>
      rw [find?, if_neg]
      rintro rfl
      cases hc
  | cons d rest ih =>
      rw [List.mem_cons, not_or] at h
      rw [find?, if_neg, ih h.2]
      · rfl
      · intro hpre
        exact (List.mem_cons.mp (hpre.subset hc)).elim (fun heq => h.1 heq) h.2

/-- The occurrences from a position on, when the search goes on `step` after each. -/
def positionsFrom (sub : List α) (step : Nat) : Nat → Nat → List α → List Nat
  | 0, _, _ => []
  | fuel + 1, start, text =>
      match find? sub text with
      | none => []
      | some i => (start + i) :: positionsFrom sub step fuel (start + i + step) (text.drop (i + step))

/-- All of them. A search that goes on meets the end after at most one round for each character. -/
def positions (sub : List α) (step : Nat) (text : List α) : List Nat :=
  positionsFrom sub step (text.length + 1) 0 text

theorem isPrefix_drop_of_mem_positionsFrom {sub text : List α} {step fuel start p : Nat}
    (h : p ∈ positionsFrom sub step fuel start text) :
    start ≤ p ∧ sub <+: text.drop (p - start) := by
  induction fuel generalizing start text with
  | zero => cases h
  | succ fuel ih =>
      rw [positionsFrom] at h
      split at h
      · cases h
      · rename_i i hi
        rcases List.mem_cons.mp h with rfl | h
        · rw [Nat.add_sub_cancel_left]
          exact ⟨Nat.le_add_right _ _, isPrefix_of_find? hi⟩
        · obtain ⟨hle, hpre⟩ := ih h
          rw [List.drop_drop] at hpre
          have heq : i + step + (p - (start + i + step)) = p - start := by omega
          rw [heq] at hpre
          exact ⟨by omega, hpre⟩

/-- **The text stands at every position** that is found. -/
theorem isPrefix_drop_of_mem_positions {sub text : List α} {step p : Nat}
    (h : p ∈ positions sub step text) : sub <+: text.drop p :=
  (isPrefix_drop_of_mem_positionsFrom h).2

theorem add_length_le_of_mem_positions {sub text : List α} {step p : Nat} (hne : sub ≠ [])
    (h : p ∈ positions sub step text) : p + sub.length ≤ text.length := by
  have hle := (isPrefix_drop_of_mem_positions h).length_le
  have hpos := List.length_pos_iff.mpr hne
  rw [List.length_drop] at hle
  omega

/-- Replace the occurrences from the left, as often as the fuel allows. -/
def replaceFrom (sub new : List α) : Nat → List α → List α
  | 0, text => text
  | fuel + 1, text =>
      match find? sub text with
      | none => text
      | some i => text.take i ++ new ++ replaceFrom sub new fuel (text.drop (i + sub.length))

/-- `text.replace(sub, new)`. -/
def replaceAll (sub new text : List α) : List α := replaceFrom sub new (text.length + 1) text

/-- A text at an occurrence: what is before it, the occurrence, and what is behind it. -/
theorem eq_append_of_find? {sub text : List α} {i : Nat} (h : find? sub text = some i) :
    text = text.take i ++ sub ++ text.drop (i + sub.length) := by
  obtain ⟨rest, hrest⟩ := isPrefix_of_find? h
  have hdrop : text.drop (i + sub.length) = rest := by
    rw [← List.drop_drop, ← hrest, List.drop_left]
  rw [hdrop, List.append_assoc, hrest, List.take_append_drop]

section Size

variable {size : List α → Nat} (hadd : ∀ a b, size (a ++ b) = size a + size b) {sub new : List α}
  (hlt : size new < size sub)

include hadd hlt

theorem size_replaceFrom_le (fuel : Nat) (text : List α) :
    size (replaceFrom sub new fuel text) ≤ size text := by
  induction fuel generalizing text with
  | zero => exact Nat.le_refl _
  | succ fuel ih =>
      rw [replaceFrom]
      split
      · exact Nat.le_refl _
      · rename_i i hi
        have hrest := ih (text.drop (i + sub.length))
        conv_rhs => rw [eq_append_of_find? hi]
        rw [hadd, hadd, hadd, hadd]
        omega

/-- **Replacing something by something smaller** leaves a text alone, or makes it smaller. -/
theorem replaceAll_eq_or_lt (text : List α) :
    replaceAll sub new text = text ∨ size (replaceAll sub new text) < size text := by
  unfold replaceAll
  rw [replaceFrom]
  split
  · exact Or.inl rfl
  · rename_i i hi
    have hrest := size_replaceFrom_le hadd hlt text.length (text.drop (i + sub.length))
    have hsize := congrArg size (eq_append_of_find? hi)
    rw [hadd, hadd] at hsize
    rw [hadd, hadd]
    exact Or.inr (by omega)

end Size

end Find
