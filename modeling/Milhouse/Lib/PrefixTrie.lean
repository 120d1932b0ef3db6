import Mathlib.Data.List.Nodup
import Mathlib.Data.List.Infix

/-!
# Prefix tries — values at the ends of paths

A trie keeps a value at the end of each of its paths. In a well-formed one a value stands at a leaf
alone and no branch is bare, so no path begins another.

* **`put_isSome_iff`** — a path goes in exactly if it neither begins nor continues another;
* **`find_put`**, **`PrefixFree.put`** — what a trie has after an insertion;
* **`exists_child`**, **`find_below`** — the values determine the children of a node.
-/

namespace PrefixTrie

inductive Trie (κ α : Type) where
  | node (children : List (κ × Trie κ α)) (value : Option α)

variable {κ α : Type}

namespace Trie

def children : Trie κ α → List (κ × Trie κ α)
  | node children _ => children

def value : Trie κ α → Option α
  | node _ value => value

def empty : Trie κ α := node [] none

end Trie

section Operations

variable [DecidableEq κ]

/-- `children[key] = child`, in a dict. -/
def setChild (key : κ) (child : Trie κ α) : List (κ × Trie κ α) → List (κ × Trie κ α)
  | [] => [(key, child)]
  | (other, old) :: rest =>
      if other = key then (key, child) :: rest else (other, old) :: setChild key child rest

/-- Put a value at the end of a path, unless a value stands on the way or behind it. -/
def put (a : α) : List κ → Trie κ α → Option (Trie κ α)
  | [], t => if t.children = [] then some (.node [] (some a)) else none
  | key :: path, t =>
      match t.value with
      | some _ => none
      | none => (put a path ((t.children.lookup key).getD .empty)).map fun child =>
          .node (setChild key child t.children) none

/-- The value at the end of a path. -/
def find : List κ → Trie κ α → Option α
  | [], t => t.value
  | key :: path, t => (t.children.lookup key).bind (find path)

/-- A value stands at a leaf alone, and something stands below every child. -/
inductive PrefixFree : Trie κ α → Prop where
  | leaf (a : α) : PrefixFree (.node [] (some a))
  | branch {children : List (κ × Trie κ α)} (keys : (children.map Prod.fst).Nodup)
      (below : ∀ c ∈ children, PrefixFree c.2)
      (some_below : ∀ c ∈ children, ∃ path a, find path c.2 = some a) :
      PrefixFree (.node children none)

end Operations

/-! ## Children -/

section Children

variable [DecidableEq κ] {children : List (κ × Trie κ α)} {key : κ} {child : Trie κ α}

theorem mem_of_lookup {β : Type} {entries : List (κ × β)} {b : β}
    (h : entries.lookup key = some b) : (key, b) ∈ entries := by
  obtain ⟨before, after, heq, -⟩ := List.lookup_eq_some_iff.mp h
  rw [heq]
  simp

theorem lookup_of_mem {β : Type} {entries : List (κ × β)} {b : β}
    (hkeys : (entries.map Prod.fst).Nodup) (h : (key, b) ∈ entries) :
    entries.lookup key = some b := by
  induction entries with
  | nil => cases h
  | cons entry rest ih =>
      obtain ⟨other, b'⟩ := entry
      obtain ⟨hnotMem, hrest⟩ := List.nodup_cons.mp hkeys
      rw [List.lookup_cons]
      rcases List.mem_cons.mp h with heq | hmem
      · obtain ⟨rfl, rfl⟩ := Prod.mk.inj heq
        simp
      · have hne : key ≠ other := by
          rintro rfl
          exact hnotMem (List.mem_map.mpr ⟨(key, b), hmem, rfl⟩)
        rw [beq_false_of_ne hne]
        exact ih hrest hmem

/-- Setting a child changes what is found under its own key only. -/
theorem lookup_setChild (other : κ) :
    (setChild key child children).lookup other =
      if other = key then some child else children.lookup other := by
  induction children with
  | nil =>
      rw [setChild, List.lookup_cons]
      by_cases hother : other = key
      · simp [hother]
      · simp [hother, beq_false_of_ne hother]
  | cons entry rest ih =>
      obtain ⟨first, old⟩ := entry
      rw [setChild]
      by_cases hfirst : first = key
      · subst hfirst
        rw [if_pos rfl, List.lookup_cons, List.lookup_cons]
        by_cases hother : other = first
        · simp [hother]
        · simp [hother, beq_false_of_ne hother]
      · rw [if_neg hfirst, List.lookup_cons, ih, List.lookup_cons]
        by_cases hother : other = first
        · subst hother
          simp [hfirst]
        · simp [beq_false_of_ne hother]

theorem mem_setChild {c : κ × Trie κ α} (h : c ∈ setChild key child children) :
    c = (key, child) ∨ c ∈ children := by
  induction children with
  | nil => exact Or.inl (List.mem_singleton.mp h)
  | cons entry rest ih =>
      obtain ⟨first, old⟩ := entry
      rw [setChild] at h
      split at h
      · rcases List.mem_cons.mp h with h | h
        · exact Or.inl h
        · exact Or.inr (List.mem_cons_of_mem _ h)
      · rcases List.mem_cons.mp h with h | h
        · rw [h]
          exact Or.inr List.mem_cons_self
        · exact (ih h).imp id (List.mem_cons_of_mem _)

/-- Setting a child keeps the keys distinct. -/
theorem keys_setChild (hkeys : (children.map Prod.fst).Nodup) :
    ((setChild key child children).map Prod.fst).Nodup := by
  induction children with
  | nil => simp [setChild]
  | cons entry rest ih =>
      obtain ⟨first, old⟩ := entry
      obtain ⟨hnotMem, hrest⟩ := List.nodup_cons.mp hkeys
      rw [setChild]
      split
      · rename_i hfirst
        exact List.nodup_cons.mpr ⟨hfirst ▸ hnotMem, hrest⟩
      · rename_i hfirst
        refine List.nodup_cons.mpr ⟨fun hmem => ?_, ih hrest⟩
        obtain ⟨c, hc, hkey⟩ := List.mem_map.mp hmem
        rcases mem_setChild hc with rfl | hc
        · exact hfirst hkey.symm
        · exact hnotMem (List.mem_map.mpr ⟨c, hc, hkey⟩)

end Children

/-! ## Insertion -/

/-- Two paths of which neither begins the other, unless they are the same. -/
def Apart (path other : List κ) : Prop :=
  (path <+: other → path = other) ∧ (other <+: path → other = path)

/-- Paths with one first key are apart if their rests are. -/
theorem apart_cons {key : κ} {path other : List κ} :
    Apart (key :: path) (key :: other) ↔ Apart path other := by
  simp only [Apart, List.cons_prefix_cons, true_and, List.cons.injEq]

theorem apart_of_ne {first key : κ} {path other : List κ} (h : first ≠ key) :
    Apart (first :: path) (key :: other) :=
  ⟨fun hprefixed => absurd (List.cons_prefix_cons.mp hprefixed).1 h,
    fun hprefixed => absurd (List.cons_prefix_cons.mp hprefixed).1.symm h⟩

section Insertion

variable [DecidableEq κ] {t t' : Trie κ α} {a : α}

theorem prefixFree_empty : PrefixFree (.empty : Trie κ α) :=
  .branch List.nodup_nil (fun _ h => nomatch h) (fun _ h => nomatch h)

theorem find_empty (path : List κ) : find path (.empty : Trie κ α) = none := by
  cases path <;> rfl

/-- Below a leaf there is nothing. -/
theorem find_leaf {path : List κ} {b : α} (h : find path (.node [] (some a)) = some b) :
    path = [] := by
  cases path with
  | nil => rfl
  | cons key path => cases h

/-- The child on the way, or a new one. -/
theorem prefixFree_child {children : List (κ × Trie κ α)} (hbelow : ∀ c ∈ children, PrefixFree c.2)
    (key : κ) : PrefixFree ((children.lookup key).getD .empty) := by
  cases h : children.lookup key with
  | none => exact prefixFree_empty
  | some child => exact hbelow _ (mem_of_lookup h)

/-- Looking below a key is looking in the child of that key. -/
theorem find_child (children : List (κ × Trie κ α)) (key : κ) (path : List κ) :
    find path ((children.lookup key).getD .empty) =
      (children.lookup key).bind (find path) := by
  cases children.lookup key with
  | none => exact find_empty path
  | some child => rfl

/-- **What a trie has after an insertion.** -/
theorem find_put {path : List κ} (ht : PrefixFree t) (h : put a path t = some t')
    (other : List κ) : find other t' = if other = path then some a else find other t := by
  induction path generalizing t t' other with
  | nil =>
      rw [put] at h
      split at h
      · rename_i hchildren
        obtain rfl := Option.some.inj h
        cases other with
        | nil => rfl
        | cons key other =>
            rw [if_neg (List.cons_ne_nil _ _), find, find, hchildren]
            rfl
      · cases h
  | cons key path ih =>
      rw [put] at h
      cases ht with
      | leaf b => cases h
      | @branch children hkeys hbelow _ =>
          obtain ⟨child, hchild, rfl⟩ := Option.map_eq_some_iff.mp h
          cases other with
          | nil => rfl
          | cons first other =>
              rw [find]
              show ((setChild key child children).lookup first).bind _ = _
              rw [lookup_setChild]
              by_cases hfirst : first = key
              · subst hfirst
                have hfind := ih (prefixFree_child hbelow first) hchild other
                rw [find_child] at hfind
                rw [if_pos rfl, Option.bind_some, hfind]
                simp only [List.cons.injEq, true_and]
                rfl
              · rw [if_neg hfirst, if_neg fun heq => hfirst (List.cons.inj heq).1]
                rfl

/-- Putting a value at a path keeps a trie free of prefixes. -/
theorem PrefixFree.put {path : List κ} (ht : PrefixFree t) (h : put a path t = some t') :
    PrefixFree t' := by
  induction path generalizing t t' with
  | nil =>
      rw [put] at h
      split at h
      · obtain rfl := Option.some.inj h
        exact .leaf a
      · cases h
  | cons key path ih =>
      rw [put] at h
      cases ht with
      | leaf b => cases h
      | @branch children hkeys hbelow hsome =>
          obtain ⟨child, hchild, rfl⟩ := Option.map_eq_some_iff.mp h
          have hwell := prefixFree_child hbelow key
          refine .branch (keys_setChild hkeys) (fun c hc => ?_) fun c hc => ?_
          · rcases mem_setChild hc with rfl | hc
            · exact ih hwell hchild
            · exact hbelow c hc
          · rcases mem_setChild hc with rfl | hc
            · exact ⟨path, a, by rw [find_put hwell hchild, if_pos rfl]⟩
            · exact hsome c hc

/-- **A path goes in exactly if it neither begins nor continues another.** -/
theorem put_isSome_iff {path : List κ} (ht : PrefixFree t) :
    (put a path t).isSome = true ↔ ∀ other b, find other t = some b → Apart path other := by
  induction path generalizing t with
  | nil =>
      rw [put]
      cases ht with
      | leaf b =>
          refine ⟨fun _ other b hother => ?_, fun _ => rfl⟩
          obtain rfl := find_leaf hother
          exact ⟨fun _ => rfl, fun _ => rfl⟩
      | @branch children hkeys hbelow hsome =>
          cases children with
          | nil =>
              refine ⟨fun _ other b hother => ?_, fun _ => rfl⟩
              exact absurd ((find_empty other).symm.trans hother) nofun
          | cons c rest =>
              -- something stands below the first child, behind the path
              obtain ⟨below, b, hb⟩ := hsome c List.mem_cons_self
              refine ⟨nofun, fun h => ?_⟩
              have hfind : find (c.1 :: below) (.node (c :: rest) none) = some b := by
                rw [find]
                show ((c :: rest).lookup c.1).bind _ = _
                rw [List.lookup_cons_self]
                exact hb
              exact absurd ((h _ b hfind).1 List.nil_prefix) (List.cons_ne_nil _ _).symm
  | cons key path ih =>
      rw [put]
      cases ht with
      | leaf b =>
          refine ⟨nofun, fun h => ?_⟩
          exact absurd ((h [] b rfl).2 List.nil_prefix) (List.cons_ne_nil _ _).symm
      | @branch children hkeys hbelow hsome =>
          show ((put a path ((children.lookup key).getD .empty)).map _).isSome = true ↔ _
          rw [Option.isSome_map, ih (prefixFree_child hbelow key)]
          constructor
          · intro h other b hother
            cases other with
            | nil => cases hother
            | cons first other =>
                by_cases hfirst : key = first
                · subst hfirst
                  exact apart_cons.mpr (h other b (by rw [find_child]; exact hother))
                · exact apart_of_ne hfirst
          · intro h other b hother
            rw [find_child] at hother
            exact apart_cons.mp (h (key :: other) b hother)

end Insertion

/-! ## The values determine the children -/

section Children

variable [DecidableEq κ] {t t' : Trie κ α}

theorem PrefixFree.keys (ht : PrefixFree t) : (t.children.map Prod.fst).Nodup := by
  cases ht with
  | leaf a => exact List.nodup_nil
  | branch hkeys _ _ => exact hkeys

theorem PrefixFree.child (ht : PrefixFree t) {c : κ × Trie κ α} (hc : c ∈ t.children) :
    PrefixFree c.2 := by
  cases ht with
  | leaf a => cases hc
  | branch _ hbelow _ => exact hbelow c hc

/-- Below every child there is a value. -/
theorem PrefixFree.exists_below (ht : PrefixFree t) {c : κ × Trie κ α} (hc : c ∈ t.children) :
    ∃ path a, find path c.2 = some a := by
  cases ht with
  | leaf a => cases hc
  | branch _ _ hsome => exact hsome c hc

/-- What stands below a child stands behind its key. -/
theorem find_of_mem (ht : PrefixFree t) {c : κ × Trie κ α} (hc : c ∈ t.children) (path : List κ) :
    find (c.1 :: path) t = find path c.2 := by
  rw [find, lookup_of_mem ht.keys hc]
  rfl

/-- What is found at a path is found below one of the children. -/
theorem exists_mem_of_find {key : κ} {path : List κ} {a : α} (h : find (key :: path) t = some a) :
    ∃ child, (key, child) ∈ t.children ∧ find path child = some a := by
  obtain ⟨child, hlookup, hfind⟩ := Option.bind_eq_some_iff.mp h
  exact ⟨child, mem_of_lookup hlookup, hfind⟩

/-- **Tries with the same values have children at the same keys.** -/
theorem exists_child (ht : PrefixFree t) (h : ∀ path, find path t = find path t')
    {c : κ × Trie κ α} (hc : c ∈ t.children) : ∃ child, (c.1, child) ∈ t'.children := by
  obtain ⟨path, a, hfind⟩ := ht.exists_below hc
  rw [← find_of_mem ht hc, h] at hfind
  obtain ⟨child, hmem, -⟩ := exists_mem_of_find hfind
  exact ⟨child, hmem⟩

/-- Children of one key have the same values. -/
theorem find_below (ht : PrefixFree t) (ht' : PrefixFree t')
    (h : ∀ path, find path t = find path t') {key : κ} {child child' : Trie κ α}
    (hc : (key, child) ∈ t.children) (hc' : (key, child') ∈ t'.children) (path : List κ) :
    find path child = find path child' := by
  rw [← find_of_mem ht hc, h, find_of_mem ht' hc']

end Children

end PrefixTrie
