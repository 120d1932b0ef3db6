import Mathlib.Data.List.Sort

/-!
# Spans — parts of a text that are found, merged and replaced

Candidates are collected in a dictionary from their start to their largest end, sorted by start and
merged where they overlap. What is left are parts of the text in order and apart, so that they can
be replaced one by one from the last to the first.

* **`separated_merged`** — the merged candidates are in order, apart and in range;
* **`replaceBack_eq`** — replacing them from the last to the first replaces those parts and keeps
  everything between them;
* **`size_substituted_le`** — replacing them by something smaller makes the text smaller.
-/

namespace Spans

/-- A part of a text, from its first position up to the one after its last. -/
abbrev Span := Nat × Nat

/-! ## Candidates -/

/-- `candidate_ends[start] = max(candidate_ends.get(start, 0), stop)`. -/
def addCandidate (start stop : Nat) : List Span → List Span
  | [] => [(start, stop)]
  | s :: rest =>
      if s.1 = start then (s.1, max s.2 stop) :: rest else s :: addCandidate start stop rest

/-- Every candidate that is kept has the ends of candidates that were added. -/
theorem forall_addCandidate {P : Span → Prop} {start stop : Nat} {candidates : List Span}
    (hmax : ∀ s ∈ candidates, s.1 = start → P (s.1, max s.2 stop)) (hnew : P (start, stop))
    (h : ∀ s ∈ candidates, P s) : ∀ s ∈ addCandidate start stop candidates, P s := by
  induction candidates with
  | nil =>
      intro s hs
      rw [List.mem_singleton.mp hs]
      exact hnew
  | cons c candidates ih =>
      intro s hs
      rw [addCandidate] at hs
      split at hs
      · rename_i heq
        rcases List.mem_cons.mp hs with rfl | hs
        · exact hmax c List.mem_cons_self heq
        · exact h s (List.mem_cons_of_mem _ hs)
      · rcases List.mem_cons.mp hs with rfl | hs
        · exact h s List.mem_cons_self
        · exact ih (fun t ht => hmax t (List.mem_cons_of_mem _ ht))
            (fun t ht => h t (List.mem_cons_of_mem _ ht)) s hs

/-! ## Order -/

/-- The order of tuples. -/
def Before (a b : Span) : Prop := a.1 < b.1 ∨ (a.1 = b.1 ∧ a.2 ≤ b.2)

instance : DecidableRel Before := fun a b =>
  inferInstanceAs (Decidable (a.1 < b.1 ∨ (a.1 = b.1 ∧ a.2 ≤ b.2)))

instance : Std.Total Before where
  total a b := by
    unfold Before
    omega

instance : IsTrans Span Before where
  trans a b c := by
    unfold Before
    omega

/-- Parts that are not empty, in order and apart, from `lo` on and up to `hi`. -/
def Separated : Nat → List Span → Nat → Prop
  | lo, [], hi => lo ≤ hi
  | lo, s :: rest, hi => lo ≤ s.1 ∧ s.1 < s.2 ∧ Separated s.2 rest hi

theorem Separated.le {spans : List Span} {lo hi : Nat} (h : Separated lo spans hi) : lo ≤ hi := by
  induction spans generalizing lo with
  | nil => exact h
  | cons s rest ih =>
      obtain ⟨hlo, hlt, hrest⟩ := h
      have hle := ih hrest
      omega

/-- **In order, apart and in range**, one by one. -/
theorem separated_iff {spans : List Span} {lo hi : Nat} : Separated lo spans hi ↔
    lo ≤ hi ∧ (∀ s ∈ spans, lo ≤ s.1 ∧ s.1 < s.2 ∧ s.2 ≤ hi) ∧
      spans.Pairwise fun a b => a.2 ≤ b.1 := by
  induction spans generalizing lo with
  | nil => simp [Separated]
  | cons s rest ih =>
      rw [Separated, ih, List.pairwise_cons]
      constructor
      · rintro ⟨hlo, hlt, hle, hrest, happart⟩
        refine ⟨by omega, fun t ht => ?_, fun t ht => (hrest t ht).1, happart⟩
        rcases List.mem_cons.mp ht with rfl | ht
        · exact ⟨hlo, hlt, hle⟩
        · obtain ⟨h1, h2, h3⟩ := hrest t ht
          exact ⟨by omega, h2, h3⟩
      · rintro ⟨-, hspans, hfirst, happart⟩
        obtain ⟨hlo, hlt, hle⟩ := hspans s List.mem_cons_self
        refine ⟨hlo, hlt, hle, fun t ht => ?_, happart⟩
        obtain ⟨-, h2, h3⟩ := hspans t (List.mem_cons_of_mem _ ht)
        exact ⟨hfirst t ht, h2, h3⟩

/-! ## Merging -/

/-- Merge sorted candidates into the last one, `current`. -/
def mergeInto : Span → List Span → List Span
  | current, [] => [current]
  | current, s :: rest =>
      if s.1 < current.2 then mergeInto (current.1, max current.2 s.2) rest
      else current :: mergeInto s rest

/-- The candidates, sorted and merged where they overlap. -/
def merged (candidates : List Span) : List Span :=
  match candidates.insertionSort Before with
  | [] => []
  | s :: rest => mergeInto s rest

theorem separated_mergeInto {current : Span} {rest : List Span} {lo hi : Nat}
    (hlo : lo ≤ current.1) (hspans : ∀ s ∈ current :: rest, s.1 < s.2 ∧ s.2 ≤ hi)
    (hsorted : (current :: rest).Pairwise fun a b => a.1 ≤ b.1) :
    Separated lo (mergeInto current rest) hi := by
  induction rest generalizing current lo with
  | nil =>
      obtain ⟨hlt, hle⟩ := hspans current List.mem_cons_self
      exact ⟨hlo, hlt, hle⟩
  | cons s rest ih =>
      obtain ⟨hlt, hle⟩ := hspans current List.mem_cons_self
      obtain ⟨hlt', hle'⟩ := hspans s (List.mem_cons_of_mem _ List.mem_cons_self)
      obtain ⟨hfirst, hrest⟩ := List.pairwise_cons.mp hsorted
      rw [mergeInto]
      split
      · refine ih hlo (fun t ht => ?_) (List.pairwise_cons.mpr ⟨fun t ht => ?_, ?_⟩)
        · rcases List.mem_cons.mp ht with rfl | ht
          · simp only
            omega
          · exact hspans t (List.mem_cons_of_mem _ (List.mem_cons_of_mem _ ht))
        · exact hfirst t (List.mem_cons_of_mem _ ht)
        · exact (List.pairwise_cons.mp hrest).2
      · refine ⟨hlo, hlt, ih (by omega) (fun t ht => hspans t (List.mem_cons_of_mem _ ht)) hrest⟩

/-- **The merged candidates** are in order, apart and in range. -/
theorem separated_merged {candidates : List Span} {hi : Nat}
    (h : ∀ s ∈ candidates, s.1 < s.2 ∧ s.2 ≤ hi) : Separated 0 (merged candidates) hi := by
  have hspans : ∀ s ∈ candidates.insertionSort Before, s.1 < s.2 ∧ s.2 ≤ hi :=
    fun s hs => h s ((List.mem_insertionSort Before).mp hs)
  have hsorted : (candidates.insertionSort Before).Pairwise fun a b => a.1 ≤ b.1 := by
    refine (List.pairwise_insertionSort Before candidates).imp fun hbefore => ?_
    unfold Before at hbefore
    omega
  unfold merged
  split
  · exact Nat.zero_le _
  · rename_i s rest hsort
    rw [hsort] at hspans hsorted
    exact separated_mergeInto (Nat.zero_le _) hspans hsorted

theorem exists_of_mem_mergeInto {current : Span} {rest : List Span} {m : Span}
    (h : m ∈ mergeInto current rest) : ∃ c ∈ current :: rest, m.1 ≤ c.1 ∧ c.2 ≤ m.2 := by
  induction rest generalizing current with
  | nil =>
      rw [mergeInto, List.mem_singleton] at h
      exact ⟨current, List.mem_cons_self, by rw [h], by rw [h]⟩
  | cons s rest ih =>
      rw [mergeInto] at h
      split at h
      · obtain ⟨c, hc, hstart, hstop⟩ := ih h
        rcases List.mem_cons.mp hc with rfl | hc
        · exact ⟨current, List.mem_cons_self, hstart, Nat.le_trans (Nat.le_max_left _ _) hstop⟩
        · exact ⟨c, List.mem_cons_of_mem _ (List.mem_cons_of_mem _ hc), hstart, hstop⟩
      · rcases List.mem_cons.mp h with rfl | h
        · exact ⟨m, List.mem_cons_self, Nat.le_refl _, Nat.le_refl _⟩
        · obtain ⟨c, hc, hle⟩ := ih h
          exact ⟨c, List.mem_cons_of_mem _ hc, hle⟩

/-- A merged part holds a candidate. -/
theorem exists_of_mem_merged {candidates : List Span} {m : Span} (h : m ∈ merged candidates) :
    ∃ c ∈ candidates, m.1 ≤ c.1 ∧ c.2 ≤ m.2 := by
  unfold merged at h
  split at h
  · cases h
  · rename_i s rest hsort
    obtain ⟨c, hc, hle⟩ := exists_of_mem_mergeInto h
    rw [← hsort] at hc
    exact ⟨c, (List.mem_insertionSort Before).mp hc, hle⟩

/-! ## Replacing -/

section Replacing

variable {α : Type} (replacement : Span → List α)

/-- Replace the parts, from the last to the first. -/
def replaceBack (spans : List Span) (text : List α) : List α :=
  spans.foldr (fun s text => text.take s.1 ++ replacement s ++ text.drop s.2) text

/-- What stands from `lo` on when the parts are replaced and all else is kept. -/
def substituted (text : List α) : Nat → List Span → List α
  | lo, [] => text.drop lo
  | lo, s :: rest => (text.take s.1).drop lo ++ replacement s ++ substituted text s.2 rest

variable {replacement}

theorem substituted_eq_append {text : List α} {spans : List Span} {lo : Nat}
    (h : Separated lo spans text.length) :
    substituted replacement text 0 spans = text.take lo ++ substituted replacement text lo spans := by
  cases spans with
  | nil => exact (List.take_append_drop lo text).symm
  | cons s rest =>
      have hlo := h.1
      have htake : text.take s.1 = text.take lo ++ (text.take s.1).drop lo := by
        conv_lhs => rw [← List.take_append_drop lo (text.take s.1), List.take_take,
          Nat.min_eq_left hlo]
      rw [substituted, substituted, List.drop_zero, htake, List.append_assoc, List.append_assoc,
        List.append_assoc, ← htake]

/-- **Replacing from the last to the first** replaces those parts, and nothing else. -/
theorem replaceBack_eq {text : List α} {spans : List Span} {lo : Nat}
    (h : Separated lo spans text.length) :
    replaceBack replacement spans text = substituted replacement text 0 spans := by
  induction spans generalizing lo with
  | nil => rfl
  | cons s rest ih =>
      obtain ⟨hlo, hlt, hrest⟩ := h
      have hle := hrest.le
      have hlength : (text.take s.2).length = s.2 := by
        rw [List.length_take]
        omega
      rw [replaceBack, List.foldr_cons, ← replaceBack, ih hrest, substituted_eq_append hrest,
        List.take_append_of_le_length (by omega), List.take_take, Nat.min_eq_left hlt.le,
        List.drop_append_of_le_length (by omega), List.drop_of_length_le (by omega),
        List.nil_append]
      rfl

section Size

variable {size : List α → Nat} (hadd : ∀ a b, size (a ++ b) = size a + size b)

include hadd

/-- **Replacing parts by something smaller** makes a text smaller, by one for each part. -/
theorem size_substituted_le {text : List α} {spans : List Span} {lo : Nat}
    (h : Separated lo spans text.length)
    (hlt : ∀ s ∈ spans, size (replacement s) < size ((text.take s.2).drop s.1)) :
    size (substituted replacement text lo spans) + spans.length ≤ size (text.drop lo) := by
  have hcut : ∀ {i j}, i ≤ j → j ≤ text.length →
      text.drop i = (text.take j).drop i ++ text.drop j := by
    intro i j hij hj
    conv_lhs => rw [← List.take_append_drop j text]
    rw [List.drop_append_of_le_length (by rw [List.length_take]; omega)]
  induction spans generalizing lo with
  | nil => exact Nat.le_refl _
  | cons s rest ih =>
      obtain ⟨hlo, hs, hrest⟩ := h
      have hle := hrest.le
      have hfirst := hlt s List.mem_cons_self
      have hbehind := ih hrest fun t ht => hlt t (List.mem_cons_of_mem _ ht)
      rw [substituted, hcut hlo (by omega), hcut hs.le hle, hadd, hadd, hadd, hadd,
        List.length_cons]
      omega

end Size

end Replacing

end Spans
