import Mathlib.Data.List.AList
import Mathlib.Data.List.GetD

/-!
# Disk — directories, un-synced changes and what a crash may bring back

A directory is a listing of names together with the listings it had since it was last synced.
Changing an entry is atomic, and so is a rename inside one directory; a change is certain to
survive a crash only once the directory has been synced, and a crash may bring back any listing
since then (changes reach the disk in order). What holds of *every* listing of a directory is
therefore what holds after any crash:

* `Dir.All P` — every listing a crash may leave satisfies `P`;
* `Dir.All.update`, `Dir.All.sync`, `Dir.All.settle` — what one change, one sync and one crash do
  to it.
-/

namespace Disk

variable {ν φ : Type}

/-- The names of a directory, each with its file. -/
abbrev Listing (ν φ : Type) := AList fun _ : ν => φ

/-- A directory: its listing, and the listings since the last sync, newest first. -/
structure Dir (ν φ : Type) where
  current : Listing ν φ
  older : List (Listing ν φ)

namespace Dir

/-- An empty synced directory. -/
def empty : Dir ν φ := ⟨∅, []⟩

/-- Every listing a crash may leave. -/
def listings (d : Dir ν φ) : List (Listing ν φ) := d.current :: d.older

/-- Change the listing; the change is not synced. -/
def update (d : Dir ν φ) (l : Listing ν φ) : Dir ν φ := ⟨l, d.listings⟩

/-- A completed directory sync. -/
def sync (d : Dir ν φ) : Dir ν φ := ⟨d.current, []⟩

/-- The directory after a crash that kept the `n`-th newest listing. -/
def settle (d : Dir ν φ) (n : Nat) : Dir ν φ := ⟨d.listings.getD n d.current, []⟩

/-- `P` holds of every listing a crash may leave. -/
def All (d : Dir ν φ) (P : Listing ν φ → Prop) : Prop := ∀ l ∈ d.listings, P l

variable {d : Dir ν φ} {P Q : Listing ν φ → Prop}

@[simp] theorem update_current (l : Listing ν φ) : (d.update l).current = l := rfl
@[simp] theorem sync_current : d.sync.current = d.current := rfl

theorem All.current (h : d.All P) : P d.current := h _ (by simp [listings])

theorem All.mono (h : d.All P) (hPQ : ∀ l, P l → Q l) : d.All Q := fun l hl => hPQ l (h l hl)

theorem All.update (h : d.All P) {l : Listing ν φ} (hl : P l) : (d.update l).All P := by
  intro x hx
  rcases List.mem_cons.mp hx with rfl | hx
  · exact hl
  · exact h x hx

/-- After a sync only the current listing counts. -/
theorem all_sync : d.sync.All P ↔ P d.current := by
  simp [All, listings, sync]

theorem All.sync (h : d.All P) : d.sync.All P := all_sync.mpr h.current

theorem settle_current_mem (n : Nat) : (d.settle n).current ∈ d.listings := by
  unfold settle
  by_cases h : n < d.listings.length
  · simp only [List.getD_eq_getElem _ _ h]
    exact List.getElem_mem h
  · rw [List.getD_eq_default _ _ (Nat.le_of_not_lt h)]
    simp [listings]

/-- **What holds of every listing survives every crash.** -/
theorem All.settle (h : d.All P) (n : Nat) : (d.settle n).All P := by
  intro l hl
  obtain rfl : l = (d.settle n).current := by simpa [listings, Dir.settle] using hl
  exact h _ (settle_current_mem n)

theorem all_empty : (empty : Dir ν φ).All P ↔ P ∅ := by
  simp [All, listings, empty]

end Dir

end Disk
