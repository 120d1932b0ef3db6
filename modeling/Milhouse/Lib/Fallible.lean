/-!
# Fallible — what a fallible computation that succeeded did

Inversion of `Except` computations, one step at a time.

* **`Except.bind_eq_ok_iff`** — a sequence succeeds where both parts do;
* `Except.map_of_mapM` — a loop over a list succeeds where every turn does.
-/

namespace Except

variable {ε α β : Type} {x : Except ε α} {f : α → Except ε β} {a a' : α} {b : β} {e : ε}

theorem bind_eq_ok_iff : (x >>= f) = .ok b ↔ ∃ a, x = .ok a ∧ f a = .ok b := by
  cases x with
  | error e => exact ⟨fun h => (by cases h), fun ⟨_, h, _⟩ => (by cases h)⟩
  | ok a => exact ⟨fun h => ⟨a, rfl, h⟩, fun ⟨_, h, hf⟩ => (by cases h; exact hf)⟩

/-- A check that succeeded held. -/
theorem ite_eq_ok_iff {p : Prop} [Decidable p] :
    (if p then .ok a else .error e) = (.ok a' : Except ε α) ↔ p ∧ a = a' := by
  by_cases hp : p
  · rw [if_pos hp, Except.ok.injEq]
    exact ⟨fun h => ⟨hp, h⟩, fun h => h.2⟩
  · rw [if_neg hp]
    exact ⟨fun h => (by cases h), fun h => absurd h.1 hp⟩

/-- A check that did not refuse was passed. -/
theorem passed_refusal {p : Prop} [Decidable p] {refusal x y : Except ε α} (hrefused : refusal ≠ y)
    (h : (if p then refusal else x) = y) : ¬ p ∧ x = y := by
  by_cases hp : p
  · rw [if_pos hp] at h
    exact absurd h hrefused
  · rw [if_neg hp] at h
    exact ⟨hp, h⟩

theorem mapError_eq_ok_iff {ε' : Type} {g : ε → ε'} : x.mapError g = .ok a ↔ x = .ok a := by
  cases x with
  | error e => exact ⟨fun h => (by cases h), fun h => (by cases h)⟩
  | ok b => exact ⟨fun h => congrArg _ (Except.ok.inj h), fun h => congrArg _ (Except.ok.inj h)⟩

/-- What a loop over a list made of its elements, one by one. -/
theorem map_of_mapM {f : α → Except ε β} {as : List α} {bs : List β} (h : as.mapM f = .ok bs) :
    as.map f = bs.map .ok := by
  induction as generalizing bs with
  | nil =>
      cases h
      rfl
  | cons a as ih =>
      rw [List.mapM_cons] at h
      obtain ⟨b, hb, h⟩ := bind_eq_ok_iff.mp h
      obtain ⟨rest, hrest, h⟩ := bind_eq_ok_iff.mp h
      cases h
      rw [List.map_cons, List.map_cons, hb, ih hrest]

theorem exists_eq_ok (h : x.isOk = true) : ∃ a, x = .ok a := by
  cases x with
  | error e => exact absurd h Bool.false_ne_true
  | ok a => exact ⟨a, rfl⟩

end Except
