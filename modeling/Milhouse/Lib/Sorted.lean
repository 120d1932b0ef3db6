import Mathlib.Data.List.Sort

/-!
# Sorted — entries in the order of their keys

* **`insertionSort_congr`** — entries with distinct keys have one sorted order;
* `sublist_of_keyLt` — entries in strict order are a sublist of others in strict order;
* **`map_insertionSort_key`** — sorting by key goes before or after what is done to the values;
* `numbered` gives the elements of a list consecutive keys; **`insertionSort_numbered`** — they are
  put back into the order of the list.
-/

namespace Sorted

section Relation

variable {α : Type} {r : α → α → Prop} [DecidableRel r] [Std.Total r] [IsTrans α r]

/-- **Entries have one sorted order, unless two of them are of one rank.** -/
theorem insertionSort_congr {l l' : List α} (h : l.Perm l')
    (hrank : ∀ a ∈ l, ∀ b ∈ l, r a b → r b a → a = b) :
    l.insertionSort r = l'.insertionSort r := by
  have hsorted : (l.insertionSort r).Perm (l'.insertionSort r) :=
    (List.perm_insertionSort r l).trans (h.trans (List.perm_insertionSort r l').symm)
  refine hsorted.eq_of_pairwise ?_ (List.pairwise_insertionSort r l)
    (List.pairwise_insertionSort r l')
  intro a b ha hb
  have ha' := (List.mem_insertionSort r).mp ha
  have hb' := (List.mem_insertionSort r).mp hb
  exact hrank a ha' b (h.mem_iff.mpr hb')

end Relation

section Keys

variable {κ α β : Type}

theorem key_unique {l : List (κ × α)} (hkeys : (l.map Prod.fst).Nodup) {a b : κ × α} (ha : a ∈ l)
    (hb : b ∈ l) (h : a.1 = b.1) : a = b :=
  List.inj_on_of_nodup_map hkeys ha hb h

variable [LinearOrder κ]

/-- Two entries in the order of their keys. -/
def KeyLe (a b : κ × α) : Prop := a.1 ≤ b.1

instance : DecidableRel (KeyLe : κ × α → κ × α → Prop) := fun a b =>
  inferInstanceAs (Decidable (a.1 ≤ b.1))

instance : Std.Total (KeyLe : κ × α → κ × α → Prop) := ⟨fun a b => le_total a.1 b.1⟩

instance : IsTrans (κ × α) KeyLe := ⟨fun _ _ _ h h' => le_trans h h'⟩

/-- Two entries in the strict order of their keys. -/
def KeyLt (a b : κ × α) : Prop := a.1 < b.1

instance : Std.Irrefl (KeyLt : κ × α → κ × α → Prop) := ⟨fun a => lt_irrefl a.1⟩

instance : Std.Antisymm (KeyLt : κ × α → κ × α → Prop) :=
  ⟨fun _ _ h h' => absurd h (lt_asymm h')⟩

/-- **Entries in strict order are among others in strict order** in that order. -/
theorem sublist_of_keyLt {l l' : List (κ × α)} (hl : l.Pairwise KeyLt) (hl' : l'.Pairwise KeyLt)
    (h : l ⊆ l') : l.Sublist l' :=
  List.sublist_of_subperm_of_pairwise (List.subperm_of_subset hl.nodup h) hl hl'

/-- Sorted entries with distinct keys are in strict order. -/
theorem keyLt_insertionSort {l : List (κ × α)} (hkeys : (l.map Prod.fst).Nodup) :
    (l.insertionSort KeyLe).Pairwise KeyLt := by
  have hsorted := List.pairwise_insertionSort (KeyLe : κ × α → κ × α → Prop) l
  have hdistinct : ((l.insertionSort KeyLe).map Prod.fst).Nodup :=
    ((List.perm_insertionSort KeyLe l).map Prod.fst).nodup_iff.mpr hkeys
  rw [List.Nodup, List.pairwise_map] at hdistinct
  exact (hsorted.and hdistinct).imp fun h => lt_of_le_of_ne h.1 h.2

/-- **Entries with distinct keys have one sorted order.** -/
theorem insertionSort_key_congr {l l' : List (κ × α)} (hkeys : (l.map Prod.fst).Nodup)
    (h : l.Perm l') : l.insertionSort KeyLe = l'.insertionSort KeyLe :=
  insertionSort_congr h fun _ ha _ hb hle hge => key_unique hkeys ha hb (le_antisymm hle hge)

/-- **Sorting by key goes before or after what is done to the values.** -/
theorem map_insertionSort_key (f : κ × α → β) (l : List (κ × α)) :
    (l.insertionSort KeyLe).map (fun a => (a.1, f a)) =
      (l.map fun a => (a.1, f a)).insertionSort KeyLe :=
  List.map_insertionSort KeyLe KeyLe (fun a : κ × α => (a.1, f a)) l fun _ _ _ _ => Iff.rfl

end Keys

/-! ## Consecutive keys -/

section Numbered

variable {α : Type}

/-- The elements of a list with consecutive keys. -/
def numbered : Nat → List α → List (Nat × α)
  | _, [] => []
  | first, a :: rest => (first, a) :: numbered (first + 1) rest

theorem numbered_keys (first : Nat) (l : List α) :
    (numbered first l).map Prod.fst = List.range' first l.length := by
  induction l generalizing first with
  | nil => rfl
  | cons a rest ih =>
      rw [numbered, List.map_cons, ih, List.length_cons, List.range'_succ]

theorem numbered_values (first : Nat) (l : List α) : (numbered first l).map Prod.snd = l := by
  induction l generalizing first with
  | nil => rfl
  | cons a rest ih => rw [numbered, List.map_cons, ih]

theorem length_numbered (first : Nat) (l : List α) : (numbered first l).length = l.length := by
  rw [← List.length_map, numbered_values]

theorem mem_numbered {first n : Nat} {l : List α} {a : α} :
    (n, a) ∈ numbered first l ↔ ∃ i, l[i]? = some a ∧ n = first + i := by
  induction l generalizing first with
  | nil => simp [numbered]
  | cons b rest ih =>
      rw [numbered, List.mem_cons, ih]
      constructor
      · rintro (heq | ⟨i, hi, rfl⟩)
        · obtain ⟨rfl, rfl⟩ := Prod.mk.inj heq
          exact ⟨0, rfl, rfl⟩
        · exact ⟨i + 1, hi, by omega⟩
      · rintro ⟨i, hi, rfl⟩
        cases i with
        | zero =>
            left
            rw [Option.some.inj hi]
            rfl
        | succ i => exact .inr ⟨i, hi, by omega⟩

theorem numbered_append (first : Nat) (l l' : List α) :
    numbered first (l ++ l') = numbered first l ++ numbered (first + l.length) l' := by
  induction l generalizing first with
  | nil => rfl
  | cons a rest ih =>
      rw [List.cons_append, numbered, numbered, ih, List.cons_append, List.length_cons,
        Nat.add_assoc, Nat.add_comm 1]

theorem numbered_lt {first : Nat} {l : List α} {e : Nat × α} (h : e ∈ numbered first l) :
    first ≤ e.1 ∧ e.1 < first + l.length := by
  have hkey := List.mem_map_of_mem (f := Prod.fst) h
  rw [numbered_keys, List.mem_range'_1] at hkey
  exact hkey

theorem nodup_numbered (first : Nat) (l : List α) : ((numbered first l).map Prod.fst).Nodup := by
  rw [numbered_keys]
  exact List.nodup_range'

theorem numbered_keyLt (first : Nat) (l : List α) : (numbered first l).Pairwise KeyLt := by
  induction l generalizing first with
  | nil => exact .nil
  | cons a rest ih =>
      refine .cons (fun e he => ?_) (ih _)
      have hlt := (numbered_lt he).1
      show first < e.1
      omega

theorem numbered_sorted (first : Nat) (l : List α) : (numbered first l).Pairwise KeyLe :=
  (numbered_keyLt first l).imp fun h => le_of_lt h

/-- The keys above one of them are those of the elements after it. -/
theorem numbered_above (first k : Nat) (l : List α) :
    (numbered first l).filter (fun e => first + k < e.1) =
      numbered (first + k + 1) (l.drop (k + 1)) := by
  induction l generalizing first k with
  | nil => rfl
  | cons a rest ih =>
      rw [numbered, List.filter_cons_of_neg (by simp), List.drop_succ_cons]
      cases k with
      | zero =>
          refine List.filter_eq_self.mpr fun e he => ?_
          have hlt := (numbered_lt he).1
          exact decide_eq_true (by omega)
      | succ k =>
          have hcongr : ∀ e : Nat × α, (decide (first + (k + 1) < e.1)) =
              decide (first + 1 + k < e.1) := fun e => by rw [Nat.add_assoc, Nat.add_comm 1 k]
          rw [List.filter_congr fun e _ => hcongr e, ih]
          rw [Nat.add_right_comm first 1 k]
          rfl

/-- **Numbered elements are put back into the order of their list.** -/
theorem insertionSort_numbered {found : List (Nat × α)} {first : Nat} {l : List α}
    (h : found.Perm (numbered first l)) : found.insertionSort KeyLe = numbered first l := by
  have hkeys : (found.map Prod.fst).Nodup :=
    (h.map Prod.fst).nodup_iff.mpr (nodup_numbered first l)
  rw [insertionSort_key_congr hkeys h]
  exact (numbered_sorted first l).insertionSort_eq

end Numbered

/-- The element of a list that meets a condition, where no other does. -/
theorem find?_eq_some_of_unique {α : Type} {l : List α} {p : α → Bool} {a : α} (ha : a ∈ l)
    (hp : p a = true) (hunique : ∀ b ∈ l, p b = true → b = a) : l.find? p = some a := by
  cases hfind : l.find? p with
  | none => exact absurd hp (List.find?_eq_none.mp hfind a ha)
  | some b => rw [hunique b (List.mem_of_find?_eq_some hfind) (List.find?_some hfind)]

end Sorted
