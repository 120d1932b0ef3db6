import Mathlib.Data.List.AList
import Mathlib.Data.List.Range

/-!
# Versions — a finite map whose keys count from one

* **`Versions.sorted_keys`** — where the keys are the numbers from one to `n`, sorting them lists
  these numbers.
-/

namespace Versions

variable {β : Type}

theorem sorted_keys {t : AList fun _ : Nat => β} {n : Nat}
    (h : ∀ version, (t.lookup version).isSome ↔ 1 ≤ version ∧ version ≤ n) :
    t.keys.mergeSort (· ≤ ·) = List.range' 1 n := by
  have hmem : ∀ version, version ∈ t.keys ↔ version ∈ List.range' 1 n := by
    intro version
    rw [← AList.mem_keys, ← AList.lookup_isSome, h, List.mem_range'_1]
    omega
  have hperm : (t.keys.mergeSort (· ≤ ·)).Perm (List.range' 1 n) :=
    (List.mergeSort_perm _ _).trans
      ((List.perm_ext_iff_of_nodup t.keys_nodup List.nodup_range').mpr hmem)
  have hsorted : (t.keys.mergeSort (· ≤ ·)).Pairwise (· ≤ ·) :=
    (List.pairwise_mergeSort (by simpa using fun a b c => Nat.le_trans)
      (by simpa using Nat.le_total) _).imp (by simp)
  have hrange : (List.range' 1 n).Pairwise (· ≤ ·) :=
    (List.pairwise_lt_range' ..).imp Nat.le_of_lt
  exact hperm.eq_of_pairwise (fun a b _ _ => Nat.le_antisymm) hsorted hrange

theorem getLastD_range' (n : Nat) : (List.range' 1 n).getLastD 0 = n := by
  cases n with
  | zero => rfl
  | succ n =>
      rw [List.range'_concat, List.getLastD_concat]
      omega

end Versions
