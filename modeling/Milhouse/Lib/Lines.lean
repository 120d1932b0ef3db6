import Mathlib.Data.List.Basic

/-!
# Lines — a text as terminated lines and an unterminated rest

* `cut` splits a text after every terminator; what is left is the rest;
* **`cut_flatten`** — lines and a rest without a terminator are cut back into themselves;
* `cut_prefix` — the lines of a prefix of a text are a prefix of its lines;
* `located` gives what is read of some lines, each with the offset of its line;
  **`located_cut_append`** — after a text that ends in a terminator, the rest is located further on;
  `located_unique` — no two lines are at one offset.
-/

namespace Lines

variable {α : Type} {lf : α}

/-- One line: its terminator stands at its end, and nowhere else. -/
def IsLine (lf : α) (line : List α) : Prop := ∃ body, line = body ++ [lf] ∧ lf ∉ body

/-- The lines of a text, each with its terminator, and the rest. -/
def cut [DecidableEq α] (lf : α) : List α → List (List α) × List α
  | [] => ([], [])
  | c :: text =>
      if c = lf then ([lf] :: (cut lf text).1, (cut lf text).2)
      else
        match (cut lf text).1 with
        | [] => ([], c :: (cut lf text).2)
        | line :: lines => ((c :: line) :: lines, (cut lf text).2)

section Cut

variable [DecidableEq α]

theorem cut_rest {rest : List α} (h : lf ∉ rest) : cut lf rest = ([], rest) := by
  induction rest with
  | nil => rfl
  | cons c rest ih =>
      rw [List.mem_cons, not_or] at h
      rw [cut, if_neg (Ne.symm h.1), ih h.2]

theorem cut_line {line text : List α} (h : IsLine lf line) :
    cut lf (line ++ text) = (line :: (cut lf text).1, (cut lf text).2) := by
  obtain ⟨body, rfl, hbody⟩ := h
  induction body with
  | nil => rw [List.nil_append, List.cons_append, List.nil_append, cut, if_pos rfl]
  | cons c body ih =>
      rw [List.mem_cons, not_or] at hbody
      rw [List.cons_append, List.cons_append, cut, if_neg (Ne.symm hbody.1), ih hbody.2]

/-- Lines come before the lines of what follows them. -/
theorem cut_lines {lines : List (List α)} (h : ∀ l ∈ lines, IsLine lf l) (text : List α) :
    cut lf (lines.flatten ++ text) = (lines ++ (cut lf text).1, (cut lf text).2) := by
  induction lines with
  | nil => rfl
  | cons line lines ih =>
      have hlines : ∀ l ∈ lines, IsLine lf l := fun l hl => h l (List.mem_cons_of_mem _ hl)
      rw [List.flatten_cons, List.append_assoc, cut_line (h line (List.mem_cons_self ..)), ih hlines]
      rfl

/-- **Lines and a rest without a terminator are cut back into themselves.** -/
theorem cut_flatten {lines : List (List α)} {rest : List α} (h : ∀ l ∈ lines, IsLine lf l)
    (hrest : lf ∉ rest) : cut lf (lines.flatten ++ rest) = (lines, rest) := by
  rw [cut_lines h, cut_rest hrest, List.append_nil]

/-- The pieces of a cut are the text. -/
theorem cut_append (text : List α) : (cut lf text).1.flatten ++ (cut lf text).2 = text := by
  induction text with
  | nil => rfl
  | cons c text ih =>
      rw [cut]
      split
      · rename_i hc
        rw [List.flatten_cons, List.append_assoc, ih, hc]
        rfl
      · cases hlines : (cut lf text).1 with
        | nil =>
            rw [hlines, List.flatten_nil, List.nil_append] at ih
            simp only [List.flatten_nil, List.nil_append, ih]
        | cons line lines =>
            rw [hlines, List.flatten_cons] at ih
            simp only [List.flatten_cons, List.cons_append, ih]

/-- The lines of a cut are lines. -/
theorem isLine_of_mem_cut {text : List α} : ∀ l ∈ (cut lf text).1, IsLine lf l := by
  induction text with
  | nil => exact nofun
  | cons c text ih =>
      rw [cut]
      split
      · intro l hl
        rcases List.mem_cons.mp hl with rfl | hl
        · exact ⟨[], rfl, List.not_mem_nil⟩
        · exact ih l hl
      · rename_i hc
        cases hlines : (cut lf text).1 with
        | nil => exact nofun
        | cons line lines =>
            rw [hlines] at ih
            intro l hl
            rcases List.mem_cons.mp hl with rfl | hl
            · obtain ⟨body, rfl, hbody⟩ := ih line List.mem_cons_self
              refine ⟨c :: body, rfl, ?_⟩
              rw [List.mem_cons, not_or]
              exact ⟨Ne.symm hc, hbody⟩
            · exact ih l (List.mem_cons_of_mem _ hl)

/-- What follows complete lines is cut on its own. -/
theorem cut_complete_append {text : List α} (h : (cut lf text).2 = []) (more : List α) :
    cut lf (text ++ more) = ((cut lf text).1 ++ (cut lf more).1, (cut lf more).2) := by
  have hflatten := @cut_append _ lf _ text
  rw [h, List.append_nil] at hflatten
  have hcut := @cut_lines _ lf _ _ (@isLine_of_mem_cut _ lf _ text) more
  rwa [hflatten] at hcut

/-- The lines of a prefix are the first lines of the text. -/
theorem cut_prefix {part text : List α} (h : part <+: text) :
    (cut lf part).1 <+: (cut lf text).1 := by
  obtain ⟨more, rfl⟩ := h
  have hcut := @cut_lines _ lf _ _ (@isLine_of_mem_cut _ lf _ part) ((cut lf part).2 ++ more)
  rw [← List.append_assoc, cut_append] at hcut
  rw [hcut]
  exact List.prefix_append _ _

/-- The rest of a text has no terminator. -/
theorem notMem_rest (text : List α) : lf ∉ (cut lf text).2 := by
  induction text with
  | nil => exact List.not_mem_nil
  | cons c text ih =>
      rw [cut]
      split
      · exact ih
      · rename_i hc
        cases hlines : (cut lf text).1 with
        | nil => exact List.not_mem_cons_of_ne_of_not_mem (Ne.symm hc) ih
        | cons line lines => exact ih

/-- A text is complete exactly where it is empty or ends in a terminator. -/
theorem rest_eq_nil_iff (text : List α) :
    (cut lf text).2 = [] ↔ text = [] ∨ text.getLast? = some lf := by
  have happend := @cut_append _ lf _ text
  constructor
  · intro hrest
    rw [hrest, List.append_nil] at happend
    by_cases hnil : (cut lf text).1 = []
    · left
      rw [← happend, hnil, List.flatten_nil]
    · right
      -- the last line of the text ends in its terminator
      obtain ⟨init, last, hlast⟩ := (List.eq_nil_or_concat _).resolve_left hnil
      obtain ⟨body, hbody, -⟩ := @isLine_of_mem_cut _ lf _ text last (by simp [hlast])
      rw [← happend, hlast]
      simp [hbody]
  · rintro (rfl | hlast)
    · rfl
    · by_contra hrest
      rw [← happend, List.getLast?_append_of_ne_nil _ hrest] at hlast
      exact notMem_rest text (List.mem_of_getLast? hlast)

end Cut

/-! ## Lines with their offsets -/

section Located

variable {β : Type}

/-- What is read of some lines, each with the offset at which its line starts. -/
def located (read : List α → Option β) : Nat → List (List α) → List (β × Nat)
  | _, [] => []
  | offset, line :: rest =>
      ((read line).map fun b => (b, offset)).toList ++ located read (offset + line.length) rest

theorem located_append (read : List α → Option β) (offset : Nat) (lines rest : List (List α)) :
    located read offset (lines ++ rest) =
      located read offset lines ++ located read (offset + lines.flatten.length) rest := by
  induction lines generalizing offset with
  | nil => rfl
  | cons line lines ih =>
      rw [List.cons_append, located, located, ih, List.append_assoc, List.flatten_cons,
        List.length_append, Nat.add_assoc]

/-- What is read of lines from an offset on starts there at the earliest. -/
theorem le_of_mem_located {read : List α → Option β} {offset position : Nat}
    {lines : List (List α)} {b : β} (h : (b, position) ∈ located read offset lines) :
    offset ≤ position := by
  induction lines generalizing offset with
  | nil => cases h
  | cons line lines ih =>
      rcases List.mem_append.mp h with h | h
      · obtain ⟨_, -, hb⟩ := Option.map_eq_some_iff.mp (Option.mem_toList.mp h)
        obtain ⟨-, rfl⟩ := Prod.mk.inj hb
        exact Nat.le_refl _
      · exact Nat.le_trans (Nat.le_add_right _ _) (ih h)

/-- No two lines start at one offset. -/
theorem located_unique {read : List α → Option β} {offset position : Nat}
    {lines : List (List α)} (hne : ∀ l ∈ lines, l ≠ []) {b b' : β}
    (h : (b, position) ∈ located read offset lines)
    (h' : (b', position) ∈ located read offset lines) : b = b' := by
  induction lines generalizing offset with
  | nil => cases h
  | cons line lines ih =>
      obtain ⟨hline, hrest⟩ := List.forall_mem_cons.mp hne
      have hpos := List.length_pos_of_ne_nil hline
      -- the first line is at the offset, and the others are after it
      have hfirst : ∀ c, (c, position) ∈ ((read line).map fun b => (b, offset)).toList →
          read line = some c ∧ position = offset := by
        intro c hc
        obtain ⟨found, hread, hc⟩ := Option.map_eq_some_iff.mp (Option.mem_toList.mp hc)
        obtain ⟨rfl, rfl⟩ := Prod.mk.inj hc
        exact ⟨hread, rfl⟩
      rcases List.mem_append.mp h with h | h <;> rcases List.mem_append.mp h' with h' | h'
      · exact Option.some.inj ((hfirst b h).1.symm.trans (hfirst b' h').1)
      · have hle := le_of_mem_located h'
        have heq := (hfirst b h).2
        omega
      · have hle := le_of_mem_located h
        have heq := (hfirst b' h').2
        omega
      · exact ih hrest h h'

variable [DecidableEq α]

/-- After complete lines, what is read of the rest is located further on. -/
theorem located_cut_append (read : List α → Option β) (offset : Nat) {text : List α}
    (h : (cut lf text).2 = []) (more : List α) :
    located read offset (cut lf (text ++ more)).1 =
      located read offset (cut lf text).1 ++
        located read (offset + text.length) (cut lf more).1 := by
  have hflatten := @cut_append _ lf _ text
  rw [h, List.append_nil] at hflatten
  rw [cut_complete_append h, located_append, hflatten]

end Located

variable {line : List α} {lines : List (List α)}

theorem IsLine.ne_nil (h : IsLine lf line) : line ≠ [] := by
  obtain ⟨body, rfl, -⟩ := h
  exact List.append_ne_nil_of_right_ne_nil _ (List.cons_ne_nil _ _)

end Lines
