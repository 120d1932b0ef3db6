import Mathlib.Data.List.Induction
import Mathlib.Order.Lattice

/-!
# Replacing — tables that keep the newest row of each key

A replacing table is appended to, and may at any time drop rows that a row of the same key is at least
as new as. Reading it gives of each key the newest row. Where rows of one key and one version are
equal, what is read depends neither on the order of the rows, nor on how often one was inserted, nor
on what was dropped.

* **`latest_eq_of_covers`** — dropping covered rows changes nothing that is read;
* **`latest_eq_of_mem_iff`** — nor does another order or multiplicity.
-/

namespace Replacing

section Rows

variable {ρ κ ν : Type} [LinearOrder ν] (key : ρ → κ) (version : ρ → ν)

/-- Rows of one key and one version are equal. -/
def Consistent (rows : List ρ) : Prop :=
  ∀ r ∈ rows, ∀ r' ∈ rows, key r = key r' → version r = version r' → r = r'

/-- Some of the rows, with one at least as new for every other. -/
structure Covers (rows kept : List ρ) : Prop where
  subset : ∀ r ∈ kept, r ∈ rows
  cover : ∀ r ∈ rows, ∃ r' ∈ kept, key r' = key r ∧ version r ≤ version r'

/-- The newest row of a key among some rows. -/
structure IsLatest (rows : List ρ) (k : κ) (row : ρ) : Prop where
  mem : row ∈ rows
  key_eq : key row = k
  newest : ∀ r ∈ rows, key r = k → version r ≤ version row

variable {key version}

/-- The newest row of a key is one row. -/
theorem IsLatest.unique {rows : List ρ} {k : κ} {row row' : ρ} (hconsistent : Consistent key version rows)
    (h : IsLatest key version rows k row) (h' : IsLatest key version rows k row') : row = row' := by
  apply hconsistent row h.mem row' h'.mem (h.key_eq.trans h'.key_eq.symm)
  exact le_antisymm (h'.newest row h.mem h.key_eq) (h.newest row' h'.mem h'.key_eq)

/-- The newest of the kept rows is the newest of all. -/
theorem IsLatest.of_covers {rows kept : List ρ} {k : κ} {row : ρ}
    (hcovers : Covers key version rows kept) (h : IsLatest key version kept k row) :
    IsLatest key version rows k row := by
  refine ⟨hcovers.subset row h.mem, h.key_eq, fun r hr hkey => ?_⟩
  obtain ⟨r', hr', hkey', hle⟩ := hcovers.cover r hr
  exact le_trans hle (h.newest r' hr' (hkey'.trans hkey))

theorem Covers.of_mem_iff {rows rows' : List ρ} (h : ∀ r, r ∈ rows' ↔ r ∈ rows) :
    Covers key version rows rows' :=
  ⟨fun r hr => (h r).mp hr, fun r hr => ⟨r, (h r).mpr hr, rfl, le_rfl⟩⟩

theorem Covers.trans {rows kept kept' : List ρ} (h : Covers key version rows kept)
    (h' : Covers key version kept kept') : Covers key version rows kept' := by
  refine ⟨fun r hr => h.subset r (h'.subset r hr), fun r hr => ?_⟩
  obtain ⟨s, hs, hkey, hle⟩ := h.cover r hr
  obtain ⟨t, ht, hkey', hle'⟩ := h'.cover s hs
  exact ⟨t, ht, hkey'.trans hkey, le_trans hle hle'⟩

theorem Covers.append {rows kept : List ρ} (h : Covers key version rows kept) (more : List ρ) :
    Covers key version (rows ++ more) (kept ++ more) := by
  refine ⟨fun r hr => ?_, fun r hr => ?_⟩
  · rcases List.mem_append.mp hr with hr | hr
    · exact List.mem_append_left _ (h.subset r hr)
    · exact List.mem_append_right _ hr
  · rcases List.mem_append.mp hr with hr | hr
    · obtain ⟨r', hr', hkey, hle⟩ := h.cover r hr
      exact ⟨r', List.mem_append_left _ hr', hkey, hle⟩
    · exact ⟨r, List.mem_append_right _ hr, rfl, le_rfl⟩

end Rows

/-! ## Reading -/

section Reading

variable {ρ κ ν : Type} [DecidableEq κ] [LinearOrder ν] (key : ρ → κ) (version : ρ → ν)

/-- One row read: it is kept if it has the key, and nothing newer was kept before. -/
def newer (k : κ) (best : Option ρ) (row : ρ) : Option ρ :=
  if key row = k ∧ best.all (fun b => version b ≤ version row) = true then some row else best

/-- The newest row of a key, of two equally new ones the later. -/
def latest (rows : List ρ) (k : κ) : Option ρ := rows.foldl (newer key version k) none

/-- **Reading a key** finds its newest row, or no row has the key. -/
theorem latest_spec (rows : List ρ) (k : κ) :
    (∃ row, latest key version rows k = some row ∧ IsLatest key version rows k row) ∨
      (latest key version rows k = none ∧ ∀ r ∈ rows, key r ≠ k) := by
  -- induction from the end: the last row is compared with the newest before it
  induction rows using List.reverseRecOn with
  | nil => exact Or.inr ⟨rfl, nofun⟩
  | append_singleton rows last ih =>
      have hstep : latest key version (rows ++ [last]) k =
          newer key version k (latest key version rows k) last := by
        unfold latest
        rw [List.foldl_append, List.foldl_cons, List.foldl_nil]
      rw [hstep]
      rcases ih with ⟨row, hrow, hlatest⟩ | ⟨hnone, hkeys⟩
      · left
        rw [hrow]
        by_cases hlast : key last = k ∧ version row ≤ version last
        · refine ⟨last, if_pos (by simpa using hlast), ⟨by simp, hlast.1, ?_⟩⟩
          intro r hr hkey
          rcases List.mem_append.mp hr with hr | hr
          · exact le_trans (hlatest.newest r hr hkey) hlast.2
          · rw [List.mem_singleton.mp hr]
        · refine ⟨row, if_neg (by simpa using hlast), ⟨by simp [hlatest.mem], hlatest.key_eq, ?_⟩⟩
          intro r hr hkey
          rcases List.mem_append.mp hr with hr | hr
          · exact hlatest.newest r hr hkey
          · obtain rfl := List.mem_singleton.mp hr
            exact le_of_lt (not_le.mp fun hle => hlast ⟨hkey, hle⟩)
      · rw [hnone]
        by_cases hlast : key last = k
        · left
          refine ⟨last, if_pos ⟨hlast, rfl⟩, ⟨by simp, hlast, ?_⟩⟩
          intro r hr hkey
          rcases List.mem_append.mp hr with hr | hr
          · exact absurd hkey (hkeys r hr)
          · rw [List.mem_singleton.mp hr]
        · right
          refine ⟨if_neg fun h => hlast h.1, ?_⟩
          intro r hr
          rcases List.mem_append.mp hr with hr | hr
          · exact hkeys r hr
          · rwa [List.mem_singleton.mp hr]

variable {key version}

/-- **Dropping covered rows changes nothing that is read.** -/
theorem latest_eq_of_covers {rows kept : List ρ} (hconsistent : Consistent key version rows)
    (hcovers : Covers key version rows kept) (k : κ) :
    latest key version kept k = latest key version rows k := by
  rcases latest_spec key version kept k with ⟨row, hrow, hlatest⟩ | ⟨hnone, hkeys⟩
  · rcases latest_spec key version rows k with ⟨row', hrow', hlatest'⟩ |
      ⟨-, hkeys'⟩
    · rw [hrow, hrow', (hlatest.of_covers hcovers).unique hconsistent hlatest']
    · exact absurd hlatest.key_eq (hkeys' row (hcovers.subset row hlatest.mem))
  · rcases latest_spec key version rows k with ⟨row', -, hlatest'⟩ |
      ⟨hnone', -⟩
    · obtain ⟨r, hr, hkey, -⟩ := hcovers.cover row' hlatest'.mem
      exact absurd (hkey.trans hlatest'.key_eq) (hkeys r hr)
    · rw [hnone, hnone']

/-- **Another order or multiplicity changes nothing that is read.** -/
theorem latest_eq_of_mem_iff {rows rows' : List ρ} (hconsistent : Consistent key version rows)
    (h : ∀ r, r ∈ rows' ↔ r ∈ rows) (k : κ) :
    latest key version rows' k = latest key version rows k :=
  latest_eq_of_covers hconsistent (Covers.of_mem_iff h) k

end Reading

/-! ## Greatest values -/

/-- The greatest value of some rows, `0` of none. -/
def greatest {ρ : Type} (value : ρ → Nat) (rows : List ρ) : Nat :=
  rows.foldr (fun row best => max (value row) best) 0

theorem greatest_le_iff {ρ : Type} {value : ρ → Nat} {rows : List ρ} {bound : Nat} :
    greatest value rows ≤ bound ↔ ∀ r ∈ rows, value r ≤ bound := by
  induction rows with
  | nil => simp [greatest]
  | cons row rows ih =>
      rw [List.forall_mem_cons, ← ih]
      exact Nat.max_le

/-- **The greatest value** does not depend on order or multiplicity either. -/
theorem greatest_eq_of_mem_iff {ρ : Type} {value : ρ → Nat} {rows rows' : List ρ}
    (h : ∀ r, r ∈ rows' ↔ r ∈ rows) : greatest value rows' = greatest value rows := by
  apply Nat.le_antisymm
  · exact greatest_le_iff.mpr fun r hr => greatest_le_iff.mp (Nat.le_refl _) r ((h r).mp hr)
  · exact greatest_le_iff.mpr fun r hr => greatest_le_iff.mp (Nat.le_refl _) r ((h r).mpr hr)

end Replacing
