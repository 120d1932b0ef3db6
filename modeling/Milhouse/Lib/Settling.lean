import Mathlib.Logic.Function.Iterate

/-!
# Settling — passes until nothing changes

A loop makes pass after pass over a state until a pass leaves what it looks at as it was, and gives
up after a fixed number of passes.

* **`settle_eq_some_of_lt`** — where every pass that changes something makes it smaller, the loop
  ends within as many passes as it is large;
* **`settle_eq_none_iff`** — a loop gives up exactly where all its passes change something.
-/

namespace Settling

variable {σ τ : Type} [DecidableEq τ] (pass : σ → σ) (view : σ → τ)

/-- At most `n` passes: the state after the first that changes nothing in view. -/
def settle : Nat → σ → Option σ
  | 0, _ => none
  | n + 1, s => if view (pass s) = view s then some (pass s) else settle n (pass s)

variable {pass view}

/-- What a loop ends with is in view what its last pass began with. -/
theorem view_of_settle {n : Nat} {s s' : σ} (h : settle pass view n s = some s') :
    ∃ before, s' = pass before ∧ view s' = view before := by
  induction n generalizing s with
  | zero => cases h
  | succ n ih =>
      rw [settle] at h
      split at h
      · rename_i hsame
        rw [← Option.some.inj h]
        exact ⟨s, rfl, hsame⟩
      · exact ih h

/-- **Passes that make smaller what they change** come to an end. -/
theorem settle_eq_some_of_lt {size : τ → Nat}
    (hpass : ∀ s, view (pass s) = view s ∨ size (view (pass s)) < size (view s)) {n : Nat} {s : σ}
    (hn : size (view s) < n) : ∃ s', settle pass view n s = some s' := by
  induction n generalizing s with
  | zero => exact absurd hn (Nat.not_lt_zero _)
  | succ n ih =>
      rw [settle]
      rcases hpass s with hsame | hlt
      · rw [if_pos hsame]
        exact ⟨_, rfl⟩
      · have hne : view (pass s) ≠ view s := by
          intro hsame
          rw [hsame] at hlt
          exact Nat.lt_irrefl _ hlt
        rw [if_neg hne]
        exact ih (by omega)

/-- **The loop gives up exactly where every pass it made changed something**, the last one included. -/
theorem settle_eq_none_iff {n : Nat} {s : σ} :
    settle pass view n s = none ↔ ∀ i < n, view (pass^[i + 1] s) ≠ view (pass^[i] s) := by
  induction n generalizing s with
  | zero => exact ⟨fun _ i hi => absurd hi (Nat.not_lt_zero i), fun _ => rfl⟩
  | succ n ih =>
      rw [settle]
      by_cases hfirst : view (pass s) = view s
      · rw [if_pos hfirst]
        exact ⟨fun h => (by cases h), fun h => absurd hfirst (h 0 (Nat.succ_pos n))⟩
      · rw [if_neg hfirst, ih]
        constructor
        · intro h i hi
          cases i with
          | zero => exact hfirst
          | succ i => exact h i (Nat.lt_of_succ_lt_succ hi)
        · exact fun h i hi => h (i + 1) (Nat.succ_lt_succ hi)

end Settling
