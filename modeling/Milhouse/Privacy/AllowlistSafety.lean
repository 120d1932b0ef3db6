import Milhouse.Lib.Fallible
import Milhouse.Privacy.Allowlist
import Mathlib.Data.List.Pairwise

/-!
# Milhouse — what a field allowlist lets through

The trie of an allowlist has each rule at its path and nothing else, so it is determined by the set
of the rules. A filter that succeeds is determined by the leaves the rules select.

* **`fieldAllowlist_ok_iff`** — which lists of rules make an allowlist;
* **`filterNode_congr`** — tries with the same rules filter alike;
* **`filterNode_agree`** — inputs with the same leaves have the same output and counts;
* **`filterNode_confined`** — the output has nothing off the paths of the rules;
* **`filterNode_faults`** — what each error of the filter says of the input.
-/

namespace Milhouse.Allowlist

open PrefixTrie Sorted

/-! ## Building -/

/-- The walk of a rule is an insertion. -/
theorem insertRule_eq (rule : FieldRule) (path : List String) (node : RuleNode) :
    insertRule rule path node =
      match put rule path node with
      | some node => .ok node
      | none => .error overlap := by
  induction path generalizing node with
  | nil =>
      rw [insertRule, put]
      by_cases hchildren : node.children = []
      · rw [if_neg (not_not.mpr hchildren), if_pos hchildren, hchildren]
      · rw [if_pos hchildren, if_neg hchildren]
  | cons segment rest ih =>
      rw [insertRule, put, ih]
      cases hvalue : node.value with
      | some other => rfl
      | none =>
          cases put rule rest ((node.children.lookup segment).getD .empty) with
          | none => rfl
          | some child => rfl

/-- What the loop has at its start: a rule at each of the paths seen. -/
structure Holds (rules : List FieldRule) (root : RuleNode) : Prop where
  prefixFree : PrefixFree root
  find_iff : ∀ path rule, find path root = some rule ↔ rule ∈ rules ∧ rule.path = path

theorem holds_empty : Holds [] .empty where
  prefixFree := prefixFree_empty
  find_iff path rule := by simp [find_empty]

/-- Neither path equals or begins the other. -/
def Distinct (a b : FieldRule) : Prop := ¬ a.path <+: b.path ∧ ¬ b.path <+: a.path

/-- Two rules may stand together if neither path begins the other. -/
theorem distinct_iff {a b : FieldRule} :
    Distinct a b ↔ a.path ≠ b.path ∧ Apart a.path b.path := by
  constructor
  · intro h
    refine ⟨fun heq => h.1 (heq ▸ List.prefix_refl _), fun hle => absurd hle h.1,
      fun hle => absurd hle h.2⟩
  · intro ⟨hne, hapart⟩
    exact ⟨fun hle => hne (hapart.1 hle), fun hle => hne (hapart.2 hle).symm⟩

/-- Putting a rule whose path is new into a tree keeps the tree and the list of rules in step. -/
theorem Holds.insert {rules : List FieldRule} {root root' : RuleNode} {rule : FieldRule}
    (h : Holds rules root) (hnew : ∀ old ∈ rules, rule.path ≠ old.path)
    (hinsert : put rule rule.path root = some root') :
    Holds (rule :: rules) root' := by
  refine ⟨h.prefixFree.put hinsert, fun path other => ?_⟩
  rw [find_put h.prefixFree hinsert]
  by_cases hpath : path = rule.path
  · rw [if_pos hpath, List.mem_cons, Option.some.injEq]
    constructor
    · rintro rfl
      exact ⟨Or.inl rfl, hpath.symm⟩
    · rintro ⟨rfl | hmem, heq⟩
      · rfl
      · exact absurd (hpath.symm.trans heq.symm) (hnew other hmem)
  · rw [if_neg hpath, h.find_iff, List.mem_cons]
    constructor
    · rintro ⟨hmem, heq⟩
      exact ⟨Or.inr hmem, heq⟩
    · rintro ⟨rfl | hmem, heq⟩
      · exact absurd heq.symm hpath
      · exact ⟨hmem, heq⟩

/-- **The loop ends without an error exactly if each rule is distinct from those before it.** -/
theorem insertRules_spec {rules before : List FieldRule} {root : RuleNode}
    (h : Holds before root) :
    (∀ root', insertRules rules (before.map FieldRule.path) root = .ok root' →
      Holds (rules.reverse ++ before) root') ∧
    ((∃ root', insertRules rules (before.map FieldRule.path) root = .ok root') ↔
      rules.Pairwise Distinct ∧ ∀ old ∈ before, ∀ rule ∈ rules, Distinct old rule) := by
  -- The induction is on the rules to come, with those before them in the tree.
  induction rules generalizing before root with
  | nil =>
      rw [insertRules]
      refine ⟨fun root' heq => ?_, ⟨fun _ => ⟨List.Pairwise.nil, by simp⟩, fun _ => ⟨_, rfl⟩⟩⟩
      obtain rfl := Except.ok.inj heq
      exact h
  | cons rule rules ih =>
      rw [insertRules]
      -- A path that was seen before is refused by the set of paths and never reaches the tree.
      by_cases hseen : rule.path ∈ before.map FieldRule.path
      · rw [if_pos hseen]
        refine ⟨nofun, ⟨fun ⟨_, heq⟩ => (nomatch heq), fun hdistinct => ?_⟩⟩
        obtain ⟨old, hold, heq⟩ := List.mem_map.mp hseen
        exact absurd (heq ▸ List.prefix_refl _) (hdistinct.2 old hold rule List.mem_cons_self).1
      · rw [if_neg hseen, insertRule_eq]
        have hnew : ∀ old ∈ before, rule.path ≠ old.path := fun old hold heq =>
          hseen (heq ▸ List.mem_map_of_mem hold)
        -- The tree takes the rule exactly if its path is apart from every path in it.
        have hapart : (put rule rule.path root).isSome = true ↔
            ∀ old ∈ before, Distinct old rule := by
          rw [put_isSome_iff h.prefixFree]
          constructor
          · intro hall old hold
            refine distinct_iff.mpr ⟨(hnew old hold).symm, ?_⟩
            have := hall old.path old ((h.find_iff _ _).mpr ⟨hold, rfl⟩)
            exact ⟨this.2, this.1⟩
          · intro hall other b hother
            obtain ⟨hmem, rfl⟩ := (h.find_iff _ _).mp hother
            have := (distinct_iff.mp (hall b hmem)).2
            exact ⟨this.2, this.1⟩
        cases hinsert : put rule rule.path root with
        | none =>
            refine ⟨nofun, ⟨fun ⟨_, heq⟩ => (nomatch heq), fun hdistinct => ?_⟩⟩
            rw [hinsert] at hapart
            have := hapart.mpr fun old hold => hdistinct.2 old hold rule List.mem_cons_self
            cases this
        | some root' =>
            rw [hinsert] at hapart
            have hbefore := hapart.mp rfl
            obtain ⟨hholds, hiff⟩ := ih (h.insert hnew hinsert)
            refine ⟨fun root'' heq => ?_, ?_⟩
            · rw [List.reverse_cons, List.append_assoc]
              exact hholds root'' heq
            -- The pairs with the new rule move from the one side of the condition to the other.
            · refine hiff.trans ?_
              rw [List.pairwise_cons]
              constructor
              · intro ⟨hpairwise, hall⟩
                refine ⟨⟨fun other hother => hall rule List.mem_cons_self other hother, hpairwise⟩,
                  fun old hold other hother => ?_⟩
                rcases List.mem_cons.mp hother with rfl | hother
                · exact hbefore old hold
                · exact hall old (List.mem_cons_of_mem _ hold) other hother
              · intro ⟨⟨hrule, hpairwise⟩, hall⟩
                refine ⟨hpairwise, fun old hold other hother => ?_⟩
                rcases List.mem_cons.mp hold with rfl | hold
                · exact hrule other hother
                · exact hall old hold other (List.mem_cons_of_mem _ hother)

/-- The trie of an allowlist has its rules, each at its path. -/
theorem holds_of_fieldAllowlist {rules : List FieldRule} {allowlist : FieldAllowlist}
    (h : fieldAllowlist rules = .ok allowlist) :
    rules ≠ [] ∧ Holds rules allowlist.root ∧
      allowlist.rules = rules.insertionSort fun a b => a.path ≤ b.path := by
  rw [fieldAllowlist] at h
  split at h
  · cases h
  · rename_i hsize
    obtain ⟨root, hroot, heq⟩ := Except.bind_eq_ok_iff.mp h
    obtain rfl := Except.ok.inj heq
    have hholds := (insertRules_spec holds_empty).1 root hroot
    rw [List.append_nil] at hholds
    refine ⟨fun hnil => hsize (Or.inl hnil), ⟨hholds.prefixFree, fun path rule => ?_⟩, rfl⟩
    rw [hholds.find_iff, List.mem_reverse]

/-- **One to a hundred rules make an allowlist exactly if no path equals or begins another.** -/
theorem fieldAllowlist_ok_iff (rules : List FieldRule) :
    (∃ allowlist, fieldAllowlist rules = .ok allowlist) ↔
      rules ≠ [] ∧ rules.length ≤ maxFieldRules ∧ rules.Pairwise Distinct := by
  have hspec := (@insertRules_spec rules [] Trie.empty holds_empty).2
  rw [List.map_nil] at hspec
  rw [fieldAllowlist]
  split
  · rename_i hsize
    refine ⟨fun ⟨_, heq⟩ => (nomatch heq), fun ⟨hne, hlength, _⟩ => ?_⟩
    rcases hsize with hnil | hlarge
    · exact absurd hnil hne
    · omega
  · rename_i hsize
    rw [not_or, Nat.not_lt] at hsize
    constructor
    · rintro ⟨allowlist, heq⟩
      obtain ⟨root, hroot, -⟩ := Except.bind_eq_ok_iff.mp heq
      exact ⟨hsize.1, hsize.2, (hspec.mp ⟨root, hroot⟩).1⟩
    · rintro ⟨-, -, hpairwise⟩
      obtain ⟨root, hroot⟩ := hspec.mpr ⟨hpairwise, by simp⟩
      exact ⟨_, Except.bind_eq_ok_iff.mpr ⟨root, hroot, rfl⟩⟩

/-! ## One step of the filter -/

variable {rt : FieldRuntime} {redactor : LayeredRedactor rt.Text}

/-- The filter of a child. -/
def childFilter (redactor : LayeredRedactor rt.Text) (child : RuleNode) : ChildFilter rt :=
  ⟨hasRequired child, filterNode redactor child⟩

theorem childFilters_eq (children : List (String × RuleNode)) :
    childFilters redactor children = children.map fun c => (c.1, childFilter redactor c.2) := by
  induction children with
  | nil => rfl
  | cons c rest ih =>
      obtain ⟨key, child⟩ := c
      rw [childFilters, ih]
      rfl

/-- The children of a node in the order of their keys. -/
def sortedChildren (children : List (String × RuleNode)) : List (String × RuleNode) :=
  children.insertionSort KeyLe

theorem mem_sortedChildren {children : List (String × RuleNode)} {c : String × RuleNode} :
    c ∈ sortedChildren children ↔ c ∈ children :=
  List.mem_insertionSort KeyLe

/-- The filters of a node are run in the order of its keys. -/
theorem sorted_childFilters (children : List (String × RuleNode)) :
    (childFilters redactor children).insertionSort KeyLe =
      (sortedChildren children).map fun c => (c.1, childFilter redactor c.2) := by
  rw [childFilters_eq, sortedChildren, map_insertionSort_key]

/-- The fields that no child is there for. -/
def unlistedFields (children : List (String × RuleNode)) (members : List (String × FieldValue rt)) :
    Nat :=
  members.countP fun m => (children.lookup m.1).isNone

/-- An object is filtered member by member, once it has no more than the allowed number. -/
theorem filterNode_object (children : List (String × RuleNode))
    (members : List (String × FieldValue rt)) (counts : Counts) :
    filterNode redactor (.node children none) (.object members) counts =
      if maxInputFieldsPerObject < members.length then .error tooManyFields
      else (filterMembers members
          ((sortedChildren children).map fun c => (c.1, childFilter redactor c.2)) counts).bind
        fun kept => .ok ⟨.object kept.output, unlistedFields children members + kept.discarded,
          kept.output ≠ [], kept.counts⟩ := by
  rw [filterNode, sorted_childFilters]
  rfl

/-- Where a node was filtered its value is an object within the bound and every child was. -/
theorem filterNode_ok {children : List (String × RuleNode)} {value : FieldValue rt}
    {counts : Counts} {r : Filtered rt}
    (h : filterNode redactor (.node children none) value counts = .ok r) :
    ∃ members kept, value = .object members ∧ members.length ≤ maxInputFieldsPerObject ∧
      filterMembers members
        ((sortedChildren children).map fun c => (c.1, childFilter redactor c.2)) counts = .ok kept ∧
      r = ⟨.object kept.output, unlistedFields children members + kept.discarded,
        kept.output ≠ [], kept.counts⟩ := by
  cases value with
  | object members =>
      rw [filterNode_object] at h
      split at h
      · cases h
      · rename_i hsize
        obtain ⟨kept, hkept, heq⟩ := Except.bind_eq_ok_iff.mp h
        exact ⟨members, kept, rfl, Nat.not_lt.mp hsize, hkept, (Except.ok.inj heq).symm⟩
  | _ => cases h

/-- Members that were filtered were filtered one after another, the counts carried along. -/
theorem filterMembers_cons_ok {members : List (String × FieldValue rt)} {key : String}
    {child : ChildFilter rt} {rest : List (String × ChildFilter rt)} {counts : Counts}
    {kept : FilteredMembers rt}
    (h : filterMembers members ((key, child) :: rest) counts = .ok kept) :
    ∃ first others, filterChild key child (members.lookup key) counts = .ok first ∧
      filterMembers members rest first.counts = .ok others ∧
      kept = ⟨first.output ++ others.output, first.discarded + others.discarded,
        others.counts⟩ := by
  obtain ⟨first, hfirst, h⟩ := Except.bind_eq_ok_iff.mp h
  obtain ⟨others, hothers, heq⟩ := Except.bind_eq_ok_iff.mp h
  exact ⟨first, others, hfirst, hothers, (Except.ok.inj heq).symm⟩

/-- The first child that refuses its member refuses the whole. -/
theorem filterMembers_cons_error {members : List (String × FieldValue rt)} {key : String}
    {child : ChildFilter rt} {rest : List (String × ChildFilter rt)} {counts : Counts}
    {e : PrivacyError} (h : filterMembers members ((key, child) :: rest) counts = .error e) :
    filterChild key child (members.lookup key) counts = .error e ∨
      ∃ first : FilteredMembers rt, filterMembers members rest first.counts = .error e := by
  rw [filterMembers] at h
  cases hfirst : filterChild key child (members.lookup key) counts with
  | error e' =>
      rw [hfirst] at h
      obtain rfl := Except.error.inj h
      exact Or.inl rfl
  | ok first =>
      rw [hfirst] at h
      right
      refine ⟨first, ?_⟩
      have h : (filterMembers members rest first.counts).bind _ = .error e := h
      cases hothers : filterMembers members rest first.counts with
      | error e' =>
          rw [hothers] at h
          obtain rfl := Except.error.inj h
          rfl
      | ok others =>
          rw [hothers] at h
          cases h

theorem filterChild_some_ok {key : String} {child : ChildFilter rt} {value : FieldValue rt}
    {counts : Counts} {first : FilteredMembers rt}
    (h : filterChild key child (some value) counts = .ok first) :
    ∃ item, child.filter value counts = .ok item ∧
      first = ⟨if item.present then [(key, item.value)] else [], item.discarded, item.counts⟩ := by
  obtain ⟨item, hitem, heq⟩ := Except.bind_eq_ok_iff.mp h
  exact ⟨item, hitem, (Except.ok.inj heq).symm⟩

/-- A member may be absent where no rule below it is required. -/
theorem filterChild_none_ok {key : String} {child : ChildFilter rt} {counts : Counts}
    {first : FilteredMembers rt} (h : filterChild key child none counts = .ok first) :
    child.required = false ∧ first = ⟨[], 0, counts⟩ := by
  rw [filterChild] at h
  cases hrequired : child.required with
  | true =>
      rw [hrequired] at h
      cases h
  | false =>
      rw [hrequired] at h
      exact ⟨rfl, (Except.ok.inj h).symm⟩

/-! ## The order of the rules -/

/-- A node requires a field exactly if one of its rules does. -/
theorem hasRequired_iff {node : RuleNode} (h : PrefixFree node) :
    hasRequired node = true ↔ ∃ path rule, find path node = some rule ∧ rule.required = true := by
  induction h with
  | leaf rule =>
      rw [hasRequired]
      constructor
      · intro hrequired
        exact ⟨[], rule, rfl, hrequired⟩
      · rintro ⟨path, other, hfind, hrequired⟩
        obtain rfl := find_leaf hfind
        obtain rfl := Option.some.inj hfind
        exact hrequired
  | @branch children hkeys hbelow hsome ih =>
      have hany : ∀ cs : List (String × RuleNode),
          anyRequired cs = true ↔ ∃ c ∈ cs, hasRequired c.2 = true := by
        intro cs
        induction cs with
        | nil => simp [anyRequired]
        | cons c rest ihRest =>
            obtain ⟨key, child⟩ := c
            simp [anyRequired, ihRest]
      have hnode : PrefixFree (.node children none : RuleNode) := .branch hkeys hbelow hsome
      rw [hasRequired, hany]
      constructor
      · rintro ⟨c, hc, hrequired⟩
        obtain ⟨path, rule, hfind, hrule⟩ := (ih c hc).mp hrequired
        exact ⟨c.1 :: path, rule, (find_of_mem hnode hc path).trans hfind, hrule⟩
      · rintro ⟨path, rule, hfind, hrule⟩
        cases path with
        | nil => cases hfind
        | cons key path =>
            obtain ⟨child, hmem, hfind⟩ := exists_mem_of_find hfind
            exact ⟨_, hmem, (ih _ hmem).mpr ⟨path, rule, hfind, hrule⟩⟩

/-- **Tries with the same rules filter alike.** -/
theorem filterNode_congr {node other : RuleNode} (h : PrefixFree node) (h' : PrefixFree other)
    (hfind : ∀ path, find path node = find path other) :
    (filterNode redactor node : FieldValue rt → Counts → _) = filterNode redactor other := by
  induction h generalizing other with
  | leaf rule =>
      cases h' with
      | leaf rule' =>
          obtain rfl : rule = rule' := Option.some.inj (hfind [])
          rfl
      | branch _ _ _ => exact nomatch hfind []
  | @branch children hkeys hbelow hsome ih =>
      cases h' with
      | leaf rule' => exact nomatch hfind []
      | @branch children' hkeys' hbelow' hsome' =>
          have hnode : PrefixFree (.node children none : RuleNode) := .branch hkeys hbelow hsome
          have hother : PrefixFree (.node children' none : RuleNode) :=
            .branch hkeys' hbelow' hsome'
          -- children of one key have one filter
          have hchild : ∀ key child child', (key, child) ∈ children → (key, child') ∈ children' →
              (childFilter redactor child : ChildFilter rt) = childFilter redactor child' := by
            intro key child child' hc hc'
            have hsame := find_below hnode hother hfind hc hc'
            rw [childFilter, childFilter, ih _ hc (hbelow' _ hc') hsame]
            have hrequired : hasRequired child = hasRequired child' := by
              rw [Bool.eq_iff_iff, hasRequired_iff (hbelow _ hc), hasRequired_iff (hbelow' _ hc')]
              simp only [hsame]
            rw [hrequired]
          have hnodup : ∀ cs : List (String × RuleNode), (cs.map Prod.fst).Nodup →
              ((cs.map fun c => (c.1, (childFilter redactor c.2 : ChildFilter rt))).map
                Prod.fst).Nodup := by
            intro cs hcs
            rw [List.map_map]
            exact hcs
          have hperm : (children.map fun c => (c.1, (childFilter redactor c.2 : ChildFilter rt))).Perm
              (children'.map fun c => (c.1, childFilter redactor c.2)) := by
            rw [List.perm_ext_iff_of_nodup (List.Nodup.of_map _ (hnodup _ hkeys))
              (List.Nodup.of_map _ (hnodup _ hkeys'))]
            intro entry
            simp only [List.mem_map]
            constructor
            · rintro ⟨c, hc, rfl⟩
              obtain ⟨child', hc'⟩ := exists_child hnode hfind hc
              exact ⟨(c.1, child'), hc', by rw [hchild c.1 c.2 child' hc hc']⟩
            · rintro ⟨c', hc', rfl⟩
              obtain ⟨child, hc⟩ := exists_child hother (fun path => (hfind path).symm) hc'
              exact ⟨(c'.1, child), hc, by rw [hchild c'.1 child c'.2 hc hc']⟩
          have hlookup : ∀ key, (children.lookup key).isNone = (children'.lookup key).isNone := by
            intro key
            rw [Bool.eq_iff_iff]
            simp only [Option.isNone_iff_eq_none, List.lookup_eq_none_iff]
            constructor
            · intro hnone c' hc'
              obtain ⟨child, hc⟩ := exists_child hother (fun path => (hfind path).symm) hc'
              exact hnone (c'.1, child) hc
            · intro hnone c hc
              obtain ⟨child', hc'⟩ := exists_child hnode hfind hc
              exact hnone (c.1, child') hc'
          funext value counts
          cases value with
          | object members =>
              rw [filterNode, filterNode, childFilters_eq, childFilters_eq,
                insertionSort_key_congr (hnodup _ hkeys) hperm]
              simp only [hlookup]
          | _ => rfl

/-! ## Leaves -/

/-- What stands at a path of an input. -/
def select : List String → FieldValue rt → Option (FieldValue rt)
  | [], value => some value
  | key :: path, .object members => (members.lookup key).bind (select path)
  | _ :: _, _ => none

/-- Where no leaf is selected, nothing is put out. -/
theorem filterNode_nothing {node : RuleNode} (h : PrefixFree node) {value : FieldValue rt}
    (hnone : ∀ path rule, find path node = some rule → select path value = none)
    {counts : Counts} {r : Filtered rt} (hr : filterNode redactor node value counts = .ok r) :
    r.value = .object [] ∧ r.present = false ∧ r.counts = counts := by
  induction h generalizing value counts r with
  | leaf rule => exact absurd (hnone [] rule rfl) (Option.some_ne_none _)
  | @branch children hkeys hbelow hsome ih =>
      have hnode : PrefixFree (.node children none : RuleNode) := .branch hkeys hbelow hsome
      obtain ⟨members, kept, rfl, -, hkept, rfl⟩ := filterNode_ok hr
      -- Over the sorted children: none of them has anything selected, so none puts out a member or
      -- a count.
      have hchildren : ∀ cs : List (String × RuleNode), (∀ c ∈ cs, c ∈ children) →
          ∀ counts kept, filterMembers members
            (cs.map fun c => (c.1, childFilter redactor c.2)) counts = .ok kept →
          kept.output = [] ∧ kept.counts = counts := by
        intro cs hcs
        induction cs with
        | nil =>
            intro counts kept hkept
            obtain rfl := Except.ok.inj hkept
            exact ⟨rfl, rfl⟩
        | cons c rest ihRest =>
            intro counts kept hkept
            obtain ⟨first, others, hfirst, hothers, rfl⟩ := filterMembers_cons_ok hkept
            have hc := hcs c List.mem_cons_self
            -- What is selected below a child is selected below the node, under one key more.
            have hselect : ∀ path rule, find path c.2 = some rule →
                (members.lookup c.1).bind (select path) = none :=
              fun path rule hfind =>
                hnone (c.1 :: path) rule ((find_of_mem hnode hc path).trans hfind)
            obtain ⟨hout, hcounts⟩ :=
              ihRest (fun c hc => hcs c (List.mem_cons_of_mem _ hc)) _ _ hothers
            have hempty : first.output = [] ∧ first.counts = counts := by
              cases hlookup : members.lookup c.1 with
              | none =>
                  rw [hlookup] at hfirst
                  obtain ⟨-, rfl⟩ := filterChild_none_ok hfirst
                  exact ⟨rfl, rfl⟩
              | some field =>
                  rw [hlookup] at hfirst hselect
                  obtain ⟨item, hitem, rfl⟩ := filterChild_some_ok hfirst
                  obtain ⟨-, hpresent, hitemCounts⟩ := ih c hc hselect hitem
                  exact ⟨by rw [hpresent]; rfl, hitemCounts⟩
            exact ⟨by rw [hempty.1, hout]; rfl, hcounts.trans hempty.2⟩
      obtain ⟨hout, hcounts⟩ :=
        hchildren _ (fun c hc => mem_sortedChildren.mp hc) _ _ hkept
      refine ⟨by rw [hout], ?_, hcounts⟩
      show decide (kept.output ≠ []) = false
      rw [hout]
      rfl

/-- **Inputs with the same leaves have the same output and the same counts.** -/
theorem filterNode_agree {node : RuleNode} (h : PrefixFree node) {value other : FieldValue rt}
    (hagree : ∀ path rule, find path node = some rule → select path value = select path other)
    {counts : Counts} {r r' : Filtered rt} (hr : filterNode redactor node value counts = .ok r)
    (hr' : filterNode redactor node other counts = .ok r') :
    r.value = r'.value ∧ r.present = r'.present ∧ r.counts = r'.counts := by
  induction h generalizing value other counts r r' with
  | leaf rule =>
      obtain rfl : value = other := Option.some.inj (hagree [] rule rfl)
      rw [hr] at hr'
      obtain rfl := Except.ok.inj hr'
      exact ⟨rfl, rfl, rfl⟩
  | @branch children hkeys hbelow hsome ih =>
      have hnode : PrefixFree (.node children none : RuleNode) := .branch hkeys hbelow hsome
      obtain ⟨members, kept, rfl, -, hkept, rfl⟩ := filterNode_ok hr
      obtain ⟨members', kept', rfl, -, hkept', rfl⟩ := filterNode_ok hr'
      have hchildren : ∀ cs : List (String × RuleNode), (∀ c ∈ cs, c ∈ children) →
          ∀ counts kept kept',
          filterMembers members (cs.map fun c => (c.1, childFilter redactor c.2)) counts = .ok kept →
          filterMembers members' (cs.map fun c => (c.1, childFilter redactor c.2)) counts =
            .ok kept' →
          kept.output = kept'.output ∧ kept.counts = kept'.counts := by
        intro cs hcs
        induction cs with
        | nil =>
            intro counts kept kept' hkept hkept'
            obtain rfl := Except.ok.inj hkept
            obtain rfl := Except.ok.inj hkept'
            exact ⟨rfl, rfl⟩
        | cons c rest ihRest =>
            intro counts kept kept' hkept hkept'
            obtain ⟨first, others, hfirst, hothers, rfl⟩ := filterMembers_cons_ok hkept
            obtain ⟨first', others', hfirst', hothers', rfl⟩ := filterMembers_cons_ok hkept'
            have hc := hcs c List.mem_cons_self
            have hselect : ∀ path rule, find path c.2 = some rule →
                (members.lookup c.1).bind (select path) =
                  (members'.lookup c.1).bind (select path) :=
              fun path rule hfind =>
                hagree (c.1 :: path) rule ((find_of_mem hnode hc path).trans hfind)
            have hsame : first.output = first'.output ∧ first.counts = first'.counts := by
              cases hlookup : members.lookup c.1 with
              | none =>
                  rw [hlookup] at hfirst hselect
                  obtain ⟨-, rfl⟩ := filterChild_none_ok hfirst
                  cases hlookup' : members'.lookup c.1 with
                  | none =>
                      rw [hlookup'] at hfirst'
                      obtain ⟨-, rfl⟩ := filterChild_none_ok hfirst'
                      exact ⟨rfl, rfl⟩
                  | some field =>
                      -- the field has none of the leaves, as it is not there on the other side
                      rw [hlookup'] at hfirst' hselect
                      obtain ⟨item, hitem, rfl⟩ := filterChild_some_ok hfirst'
                      obtain ⟨-, hpresent, hcounts⟩ := filterNode_nothing (hbelow c hc)
                        (fun path rule hfind => (hselect path rule hfind).symm) hitem
                      exact ⟨by rw [hpresent]; rfl, hcounts.symm⟩
              | some field =>
                  rw [hlookup] at hfirst hselect
                  obtain ⟨item, hitem, rfl⟩ := filterChild_some_ok hfirst
                  cases hlookup' : members'.lookup c.1 with
                  | none =>
                      rw [hlookup'] at hfirst' hselect
                      obtain ⟨-, rfl⟩ := filterChild_none_ok hfirst'
                      obtain ⟨-, hpresent, hcounts⟩ :=
                        filterNode_nothing (hbelow c hc) hselect hitem
                      exact ⟨by rw [hpresent]; rfl, hcounts⟩
                  | some field' =>
                      rw [hlookup'] at hfirst' hselect
                      obtain ⟨item', hitem', rfl⟩ := filterChild_some_ok hfirst'
                      obtain ⟨hvalue, hpresent, hcounts⟩ := ih c hc hselect hitem hitem'
                      exact ⟨by rw [hvalue, hpresent], hcounts⟩
            rw [hsame.2] at hothers
            obtain ⟨hout, hcounts⟩ :=
              ihRest (fun c hc => hcs c (List.mem_cons_of_mem _ hc)) _ _ _ hothers hothers'
            exact ⟨by rw [hsame.1, hout], hcounts⟩
      obtain ⟨hout, hcounts⟩ :=
        hchildren _ (fun c hc => mem_sortedChildren.mp hc) _ _ _ hkept hkept'
      refine ⟨by rw [hout], ?_, hcounts⟩
      show decide (kept.output ≠ []) = decide (kept'.output ≠ [])
      rw [hout]

/-! ## What is put out -/

/-- What a leaf is transformed to is never an object. -/
theorem transformLeaf_isObject {rule : FieldRule} {value out : FieldValue rt}
    {result : Option (RedactionResult rt.Text)}
    (h : transformLeaf redactor rule value = .ok (out, result)) : out.isObject = false := by
  have hscalar : transformScalar redactor value = .ok (out, result) → out.isObject = false := by
    intro h
    cases value with
    | bool flag =>
        obtain ⟨rfl, -⟩ := Prod.mk.inj (Except.ok.inj h)
        rfl
    | int n =>
        rw [transformScalar] at h
        split at h
        · obtain ⟨rfl, -⟩ := Prod.mk.inj (Except.ok.inj h)
          rfl
        · cases h
    | float x =>
        rw [transformScalar] at h
        split at h
        · obtain ⟨rfl, -⟩ := Prod.mk.inj (Except.ok.inj h)
          rfl
        · cases h
    | text t =>
        obtain ⟨redacted, -, heq⟩ := Except.bind_eq_ok_iff.mp h
        obtain ⟨rfl, -⟩ := Prod.mk.inj (Except.ok.inj heq)
        rfl
    | other x => cases h
    | object members => cases h
  unfold transformLeaf at h
  split at h
  · exact hscalar h
  · obtain ⟨redacted, -, heq⟩ := Except.bind_eq_ok_iff.mp h
    obtain ⟨rfl, -⟩ := Prod.mk.inj (Except.ok.inj heq)
    rfl
  · cases h

/-- Nothing lies below a value that is not an object. -/
theorem select_of_not_object {value : FieldValue rt} (h : value.isObject = false)
    {path : List String} {x : FieldValue rt} (hselect : select path value = some x) : path = [] := by
  cases path with
  | nil => rfl
  | cons key path => cases value <;> first | cases hselect | cases h

/-- **Off the paths of the rules the output has nothing.** -/
theorem filterNode_confined {node : RuleNode} (h : PrefixFree node) {value : FieldValue rt}
    {counts : Counts} {r : Filtered rt} (hr : filterNode redactor node value counts = .ok r)
    {path : List String} {x : FieldValue rt} (hx : select path r.value = some x) :
    (∃ rule, find path node = some rule) ∨ (path = [] ∧ r.present = false) ∨
      (x.isObject = true ∧ ∃ more rule, more ≠ [] ∧ find (path ++ more) node = some rule) := by
  induction h generalizing value counts r path x with
  | leaf rule =>
      obtain ⟨⟨transformed, result⟩, htransformed, heq⟩ := Except.bind_eq_ok_iff.mp hr
      obtain rfl := Except.ok.inj heq
      obtain rfl := select_of_not_object (transformLeaf_isObject htransformed) hx
      exact Or.inl ⟨rule, rfl⟩
  | @branch children hkeys hbelow hsome ih =>
      have hnode : PrefixFree (.node children none : RuleNode) := .branch hkeys hbelow hsome
      obtain ⟨members, kept, rfl, -, hkept, rfl⟩ := filterNode_ok hr
      -- every field that is put out is that of a child that was present
      have hchildren : ∀ cs : List (String × RuleNode), (∀ c ∈ cs, c ∈ children) →
          ∀ counts kept, filterMembers members
            (cs.map fun c => (c.1, childFilter redactor c.2)) counts = .ok kept →
          ∀ entry ∈ kept.output, ∃ c ∈ cs, entry.1 = c.1 ∧ ∃ field counts item,
            filterNode redactor c.2 field counts = .ok item ∧ item.present = true ∧
              entry.2 = item.value := by
        intro cs hcs
        induction cs with
        | nil =>
            intro counts kept hkept entry hentry
            obtain rfl := Except.ok.inj hkept
            cases hentry
        | cons c rest ihRest =>
            intro counts kept hkept entry hentry
            obtain ⟨first, others, hfirst, hothers, rfl⟩ := filterMembers_cons_ok hkept
            rcases List.mem_append.mp hentry with hentry | hentry
            · cases hlookup : members.lookup c.1 with
              | none =>
                  rw [hlookup] at hfirst
                  obtain ⟨-, rfl⟩ := filterChild_none_ok hfirst
                  cases hentry
              | some field =>
                  rw [hlookup] at hfirst
                  obtain ⟨item, hitem, rfl⟩ := filterChild_some_ok hfirst
                  cases hpresent : item.present with
                  | false =>
                      rw [hpresent] at hentry
                      cases hentry
                  | true =>
                      rw [hpresent] at hentry
                      obtain rfl := List.mem_singleton.mp hentry
                      exact ⟨c, List.mem_cons_self, rfl, field, counts, item, hitem, hpresent, rfl⟩
            · obtain ⟨c', hc', hrest⟩ := ihRest
                (fun c hc => hcs c (List.mem_cons_of_mem _ hc)) _ _ hothers entry hentry
              exact ⟨c', List.mem_cons_of_mem _ hc', hrest⟩
      have houtput := hchildren _ (fun c hc => mem_sortedChildren.mp hc) _ _ hkept
      cases path with
      | nil =>
          obtain rfl := Option.some.inj hx
          cases hout : kept.output with
          | nil =>
              exact Or.inr (Or.inl ⟨rfl, by simp⟩)
          | cons entry rest =>
              obtain ⟨c, hc, -⟩ := houtput entry (by rw [hout]; exact List.mem_cons_self)
              obtain ⟨path, rule, hfind⟩ := hsome c (mem_sortedChildren.mp hc)
              refine Or.inr (Or.inr ⟨rfl, c.1 :: path, rule, List.cons_ne_nil _ _, ?_⟩)
              exact (find_of_mem hnode (mem_sortedChildren.mp hc) path).trans hfind
      | cons key path =>
          obtain ⟨entry, hlookup, hselect⟩ := Option.bind_eq_some_iff.mp hx
          obtain ⟨c, hc, hkey, field, counts', item, hitem, hpresent, hvalue⟩ :=
            houtput _ (mem_of_lookup hlookup)
          have hc := mem_sortedChildren.mp hc
          obtain rfl : key = c.1 := hkey
          obtain rfl : entry = item.value := hvalue
          rcases ih c hc hitem hselect with
            ⟨rule, hrule⟩ | ⟨-, habsent⟩ | ⟨hobject, more, rule, hne, hrule⟩
          · exact Or.inl ⟨rule, (find_of_mem hnode hc path).trans hrule⟩
          · rw [hpresent] at habsent
            cases habsent
          · refine Or.inr (Or.inr ⟨hobject, more, rule, hne, ?_⟩)
            rw [List.cons_append]
            exact (find_of_mem hnode hc _).trans hrule

/-! ## What the errors say -/

/-- A required leaf is not there. -/
def Missing (node : RuleNode) (value : FieldValue rt) : Prop :=
  ∃ path rule, find path node = some rule ∧ rule.required = true ∧ select path value = none

/-- Something on the way to a leaf has a property. -/
def OnTheWay (P : FieldValue rt → Prop) (node : RuleNode) (value : FieldValue rt) : Prop :=
  ∃ before more rule x, more ≠ [] ∧ find (before ++ more) node = some rule ∧
    select before value = some x ∧ P x

def IsNoObject (value : FieldValue rt) : Prop := value.isObject = false

def IsLarge (value : FieldValue rt) : Prop :=
  ∃ members, value = .object members ∧ maxInputFieldsPerObject < members.length

/-- Every leaf that is there can be transformed. -/
def ValidLeaves (redactor : LayeredRedactor rt.Text) (node : RuleNode) (value : FieldValue rt) :
    Prop :=
  ∀ path rule x, find path node = some rule → select path value = some x →
    ∃ out, transformLeaf redactor rule x = .ok out

/-- An error of the filter, and what it says. -/
def Faulty (node : RuleNode) (value : FieldValue rt) (e : PrivacyError) : Prop :=
  (e = missingField ∧ Missing node value) ∨ (e = notAnObject ∧ OnTheWay IsNoObject node value) ∨
    (e = tooManyFields ∧ OnTheWay IsLarge node value)

/-- Nothing is wrong with an input but its leaves. -/
structure Faultless (node : RuleNode) (value : FieldValue rt) : Prop where
  complete : ¬ Missing node value
  objects : ¬ OnTheWay IsNoObject node value
  small : ¬ OnTheWay IsLarge node value

section Children

variable {children : List (String × RuleNode)} {c : String × RuleNode}
  {members : List (String × FieldValue rt)} {field : FieldValue rt}

/-- What is missing below a child is missing below the node. -/
theorem missing_below (hnode : PrefixFree (.node children none : RuleNode)) (hc : c ∈ children)
    (hlookup : members.lookup c.1 = some field) (h : Missing c.2 field) :
    Missing (.node children none) (.object members) := by
  obtain ⟨path, rule, hfind, hrequired, hselect⟩ := h
  refine ⟨c.1 :: path, rule, (find_of_mem hnode hc path).trans hfind, hrequired, ?_⟩
  rw [select, hlookup]
  exact hselect

theorem onTheWay_below {P : FieldValue rt → Prop}
    (hnode : PrefixFree (.node children none : RuleNode)) (hc : c ∈ children)
    (hlookup : members.lookup c.1 = some field) (h : OnTheWay P c.2 field) :
    OnTheWay P (.node children none) (.object members) := by
  obtain ⟨before, more, rule, x, hne, hfind, hselect, hx⟩ := h
  refine ⟨c.1 :: before, more, rule, x, hne, ?_, ?_, hx⟩
  · rw [List.cons_append]
    exact (find_of_mem hnode hc _).trans hfind
  · rw [select, hlookup]
    exact hselect

/-- What is missing below a node is missing below one of its children. -/
theorem missing_cases (h : Missing (.node children none) (.object members)) :
    ∃ c ∈ children, (members.lookup c.1 = none ∧
      ∃ path rule, find path c.2 = some rule ∧ rule.required = true) ∨
      ∃ field, members.lookup c.1 = some field ∧ Missing c.2 field := by
  obtain ⟨path, rule, hfind, hrequired, hselect⟩ := h
  cases path with
  | nil => cases hfind
  | cons key path =>
      obtain ⟨child, hmem, hfind⟩ := exists_mem_of_find hfind
      refine ⟨(key, child), hmem, ?_⟩
      rw [select] at hselect
      cases hlookup : members.lookup key with
      | none => exact Or.inl ⟨rfl, path, rule, hfind, hrequired⟩
      | some field =>
          rw [hlookup] at hselect
          exact Or.inr ⟨field, rfl, path, rule, hfind, hrequired, hselect⟩

/-- What is met on the way to a leaf is the object itself or is met below one of its members. -/
theorem onTheWay_cases {P : FieldValue rt → Prop}
    (h : OnTheWay P (.node children none) (.object members)) :
    P (.object members) ∨
      ∃ c ∈ children, ∃ field, members.lookup c.1 = some field ∧ OnTheWay P c.2 field := by
  obtain ⟨before, more, rule, x, hne, hfind, hselect, hx⟩ := h
  cases before with
  | nil =>
      obtain rfl := Option.some.inj hselect
      exact Or.inl hx
  | cons key before =>
      obtain ⟨child, hmem, hfind⟩ := exists_mem_of_find hfind
      obtain ⟨field, hlookup, hselect⟩ := Option.bind_eq_some_iff.mp hselect
      exact Or.inr ⟨(key, child), hmem, field, hlookup, before, more, rule, x, hne, hfind,
        hselect, hx⟩

end Children

/-- What a child says of the field of its key. -/
theorem filterChild_faults {children : List (String × RuleNode)}
    (hnode : PrefixFree (.node children none : RuleNode)) {c : String × RuleNode}
    (hc : c ∈ children) {members : List (String × FieldValue rt)} {counts : Counts}
    (ih : ∀ field, members.lookup c.1 = some field →
      (∀ r, filterNode redactor c.2 field counts = .ok r → Faultless c.2 field) ∧
      ∀ e, filterNode redactor c.2 field counts = .error e → Faulty c.2 field e) :
    (∀ first, filterChild c.1 (childFilter redactor c.2) (members.lookup c.1) counts = .ok first →
      (members.lookup c.1 = none → hasRequired c.2 = false) ∧
        ∀ field, members.lookup c.1 = some field → Faultless c.2 field) ∧
    ∀ e, filterChild c.1 (childFilter redactor c.2) (members.lookup c.1) counts = .error e →
      Faulty (.node children none) (.object members) e := by
  have hchild := hnode.child hc
  cases hlookup : members.lookup c.1 with
  -- A field that is absent is a fault exactly if something below it is required.
  | none =>
      constructor
      · intro first hfirst
        exact ⟨fun _ => (filterChild_none_ok hfirst).1, nofun⟩
      · intro e he
        rw [filterChild] at he
        split at he
        · rename_i hrequired
          obtain rfl := Except.error.inj he
          obtain ⟨path, rule, hfind, hrule⟩ := (hasRequired_iff hchild).mp hrequired
          refine Or.inl ⟨rfl, c.1 :: path, rule, (find_of_mem hnode hc path).trans hfind, hrule, ?_⟩
          rw [select, hlookup]
          rfl
        · cases he
  | some field =>
      obtain ⟨hok, herror⟩ := ih field hlookup
      constructor
      · intro first hfirst
        obtain ⟨item, hitem, -⟩ := filterChild_some_ok hfirst
        refine ⟨nofun, fun field' heq => ?_⟩
        obtain rfl := Option.some.inj heq
        exact hok item hitem
      · intro e he
        rw [filterChild] at he
        cases hitem : (childFilter redactor c.2).filter field counts with
        | ok item =>
            rw [hitem] at he
            cases he
        | error e' =>
            rw [hitem] at he
            obtain rfl := Except.error.inj he
            -- A fault below the child is one of the node, under the key in front of its path.
            rcases herror _ hitem with ⟨rfl, h⟩ | ⟨rfl, h⟩ | ⟨rfl, h⟩
            · exact Or.inl ⟨rfl, missing_below hnode hc hlookup h⟩
            · exact Or.inr (Or.inl ⟨rfl, onTheWay_below hnode hc hlookup h⟩)
            · exact Or.inr (Or.inr ⟨rfl, onTheWay_below hnode hc hlookup h⟩)

/-- What the loop over children says of an input. -/
theorem filterMembers_faults {children : List (String × RuleNode)}
    (hnode : PrefixFree (.node children none : RuleNode)) {members : List (String × FieldValue rt)}
    (hchild : ∀ c ∈ children, ∀ counts field, members.lookup c.1 = some field →
      (∀ r, filterNode redactor c.2 field counts = .ok r → Faultless c.2 field) ∧
      ∀ e, filterNode redactor c.2 field counts = .error e → Faulty c.2 field e)
    {cs : List (String × RuleNode)} (hcs : ∀ c ∈ cs, c ∈ children) (counts : Counts) :
    (∀ kept, filterMembers members
      (cs.map fun c => (c.1, childFilter redactor c.2)) counts = .ok kept →
      ∀ c ∈ cs, (members.lookup c.1 = none → hasRequired c.2 = false) ∧
        ∀ field, members.lookup c.1 = some field → Faultless c.2 field) ∧
    ∀ e, filterMembers members
      (cs.map fun c => (c.1, childFilter redactor c.2)) counts = .error e →
      Faulty (.node children none) (.object members) e := by
  induction cs generalizing counts with
  | nil => exact ⟨fun _ _ _ hc => absurd hc List.not_mem_nil, nofun⟩
  | cons c rest ih =>
      have hc := hcs c List.mem_cons_self
      obtain ⟨hok, herror⟩ := filterChild_faults hnode hc (hchild c hc counts)
      have hrest := ih fun c hc => hcs c (List.mem_cons_of_mem _ hc)
      constructor
      · intro kept hkept c' hc'
        obtain ⟨first, others, hfirst, hothers, -⟩ := filterMembers_cons_ok hkept
        rcases List.mem_cons.mp hc' with rfl | hc'
        · exact hok first hfirst
        · exact (hrest first.counts).1 others hothers c' hc'
      · intro e he
        rcases filterMembers_cons_error he with hfirst | ⟨first, hothers⟩
        · exact herror e hfirst
        · exact (hrest first.counts).2 e hothers

/-- **Where the leaves are valid, the filter succeeds on a faultless input, and each of its errors
is a fault of the input.** -/
theorem filterNode_faults {node : RuleNode} (h : PrefixFree node)
    (hsomething : ∃ path rule, find path node = some rule) {value : FieldValue rt}
    (hvalid : ValidLeaves redactor node value) (counts : Counts) :
    (∀ r, filterNode redactor node value counts = .ok r → Faultless node value) ∧
    ∀ e, filterNode redactor node value counts = .error e → Faulty node value e := by
  induction h generalizing value counts with
  -- A leaf selects the value itself: it is always present, and it has no fields to be missing.
  | leaf rule =>
      obtain ⟨⟨out, result⟩, hout⟩ := hvalid [] rule value rfl rfl
      have hfilter : filterNode redactor (.node [] (some rule)) value counts =
          .ok ⟨out, 0, true, (result.map (mergeCounts counts)).getD counts⟩ := by
        rw [filterNode, hout]
        rfl
      constructor
      · intro r _
        refine ⟨?_, ?_, ?_⟩
        · rintro ⟨path, other, hfind, -, hselect⟩
          obtain rfl := find_leaf hfind
          cases hselect
        all_goals
          rintro ⟨before, more, other, x, hne, hfind, -⟩
          exact hne (List.append_eq_nil_iff.mp (find_leaf hfind)).2
      · intro e he
        rw [hfilter] at he
        cases he
  | @branch children hkeys hbelow hsome ih =>
      have hnode : PrefixFree (.node children none : RuleNode) := .branch hkeys hbelow hsome
      obtain ⟨path, rule, hrule⟩ := hsomething
      -- Nothing is selected at the branch itself, so every path below starts with a key.
      have hpath : path ≠ [] := by
        rintro rfl
        cases hrule
      by_cases hobject : ∃ members, value = .object members
      · obtain ⟨members, rfl⟩ := hobject
        -- An object with too many fields fails before any of them is looked at.
        by_cases hlarge : maxInputFieldsPerObject < members.length
        · have hfilter : filterNode redactor (.node children none) (.object members) counts =
              .error tooManyFields := by
            rw [filterNode_object, if_pos hlarge]
          refine ⟨fun r hr => ?_, fun e he => ?_⟩
          · rw [hfilter] at hr
            cases hr
          · rw [hfilter] at he
            obtain rfl := Except.error.inj he
            exact Or.inr (Or.inr ⟨rfl, [], path, rule, _, hpath, hrule, rfl, members, rfl, hlarge⟩)
        · have hchild : ∀ c ∈ children, ∀ counts field, members.lookup c.1 = some field →
              (∀ r, filterNode redactor c.2 field counts = .ok r → Faultless c.2 field) ∧
              ∀ e, filterNode redactor c.2 field counts = .error e → Faulty c.2 field e := by
            intro c hc counts field hlookup
            refine ih c hc (hsome c hc) (fun path rule x hfind hselect => ?_) counts
            refine hvalid (c.1 :: path) rule x ((find_of_mem hnode hc path).trans hfind) ?_
            rw [select, hlookup]
            exact hselect
          -- The children are independent: the first fault among them, in sorted order, is the
          -- fault.
          obtain ⟨hok, herror⟩ :=
            filterMembers_faults hnode hchild (fun c hc => mem_sortedChildren.mp hc) counts
          rw [filterNode_object, if_neg hlarge]
          constructor
          · intro r hr
            obtain ⟨kept, hkept, -⟩ := Except.bind_eq_ok_iff.mp hr
            have hall := hok kept hkept
            refine ⟨fun hmissing => ?_, fun hnoObject => ?_, fun hlarge' => ?_⟩
            · obtain ⟨c, hc, ⟨hnone, path, rule, hfind, hrequired⟩ | ⟨field, hlookup, h⟩⟩ :=
                missing_cases hmissing
              · have hrequires := (hasRequired_iff (hbelow c hc)).mpr ⟨path, rule, hfind, hrequired⟩
                rw [(hall c (mem_sortedChildren.mpr hc)).1 hnone] at hrequires
                cases hrequires
              · exact ((hall c (mem_sortedChildren.mpr hc)).2 field hlookup).complete h
            · rcases onTheWay_cases hnoObject with h | ⟨c, hc, field, hlookup, h⟩
              · cases h
              · exact ((hall c (mem_sortedChildren.mpr hc)).2 field hlookup).objects h
            · rcases onTheWay_cases hlarge' with ⟨members', heq, h⟩ | ⟨c, hc, field, hlookup, h⟩
              · obtain rfl := FieldValue.object.inj heq
                exact hlarge h
              · exact ((hall c (mem_sortedChildren.mpr hc)).2 field hlookup).small h
          · intro e he
            cases hkept : filterMembers members
                ((sortedChildren children).map fun c => (c.1, childFilter redactor c.2)) counts with
            | ok kept =>
                rw [hkept] at he
                cases he
            | error e' =>
                rw [hkept] at he
                obtain rfl := Except.error.inj he
                exact herror _ hkept
      · have hnot : value.isObject = false := by
          cases value with
          | object members => exact absurd ⟨members, rfl⟩ hobject
          | _ => rfl
        have hfilter : filterNode redactor (.node children none) value counts =
            .error notAnObject := by
          cases value with
          | object members => cases hnot
          | _ => rfl
        rw [hfilter]
        refine ⟨nofun, fun e he => ?_⟩
        obtain rfl := Except.error.inj he
        exact Or.inr (Or.inl ⟨rfl, [], path, rule, value, hpath, hrule, rfl, hnot⟩)

/-! ## Allowlists -/

section Allowlists

variable {rules : List FieldRule} {allowlist : FieldAllowlist}

/-- The root of an allowlist is no leaf. -/
theorem root_branch (hholds : Holds rules allowlist.root) :
    ∃ children, allowlist.root = .node children none := by
  cases hroot : allowlist.root with
  | node children rule =>
      cases rule with
      | none => exact ⟨children, rfl⟩
      | some rule =>
          have hfind : find [] allowlist.root = some rule := by
            rw [hroot]
            rfl
          exact absurd ((hholds.find_iff [] rule).mp hfind).2 rule.path_ne_nil

/-- An allowlist applied to an object filters it from the root and totals the counts. -/
theorem applyFieldAllowlist_object (hholds : Holds rules allowlist.root)
    (members : List (String × FieldValue rt)) :
    (∃ r output, filterNode redactor allowlist.root (.object members) [] = .ok r ∧
      r.value = .object output ∧
      applyFieldAllowlist redactor allowlist (.object members) =
        .ok ⟨output, r.discarded, r.counts⟩) ∨
    ∃ e, filterNode redactor allowlist.root (.object members) [] = .error e ∧
      applyFieldAllowlist redactor allowlist (.object members) = .error e := by
  obtain ⟨children, hroot⟩ := root_branch hholds
  unfold applyFieldAllowlist
  cases hfilter : filterNode redactor allowlist.root (.object members) [] with
  | error e => exact Or.inr ⟨e, rfl, rfl⟩
  | ok r =>
      rw [hroot] at hfilter
      obtain ⟨_, kept, -, -, -, rfl⟩ := filterNode_ok hfilter
      exact Or.inl ⟨_, kept.output, rfl, rfl, rfl⟩

/-- Only an object is filtered. -/
theorem applyFieldAllowlist_ok (hholds : Holds rules allowlist.root) {value : FieldValue rt}
    {out : AllowedFields rt} (h : applyFieldAllowlist redactor allowlist value = .ok out) :
    ∃ r, filterNode redactor allowlist.root value [] = .ok r ∧ r.value = .object out.value ∧
      r.counts = out.redactions := by
  cases value with
  | object members =>
      rcases applyFieldAllowlist_object hholds members with
        ⟨r, output, hr, hvalue, happly⟩ | ⟨e, -, happly⟩
      · rw [happly] at h
        obtain rfl := Except.ok.inj h
        exact ⟨r, hr, hvalue, rfl⟩
      · rw [happly] at h
        cases h
  | _ => cases h

/-- Something is missing in the tree exactly if a required rule selects nothing. -/
theorem missing_iff (hholds : Holds rules allowlist.root) (value : FieldValue rt) :
    Missing allowlist.root value ↔
      ∃ rule ∈ rules, rule.required = true ∧ select rule.path value = none := by
  constructor
  · rintro ⟨path, rule, hfind, hrequired, hselect⟩
    obtain ⟨hmem, rfl⟩ := (hholds.find_iff path rule).mp hfind
    exact ⟨rule, hmem, hrequired, hselect⟩
  · rintro ⟨rule, hmem, hrequired, hselect⟩
    exact ⟨rule.path, rule, (hholds.find_iff _ _).mpr ⟨hmem, rfl⟩, hrequired, hselect⟩

/-- Something that is on the way to the leaf of a rule. -/
def OnAPath (rules : List FieldRule) (value x : FieldValue rt) : Prop :=
  ∃ rule ∈ rules, ∃ before more, more ≠ [] ∧ rule.path = before ++ more ∧
    select before value = some x

/-- The values met in the tree are those on the path of some rule. -/
theorem onTheWay_iff (hholds : Holds rules allowlist.root) (P : FieldValue rt → Prop)
    (value : FieldValue rt) :
    OnTheWay P allowlist.root value ↔ ∃ x, OnAPath rules value x ∧ P x := by
  constructor
  · rintro ⟨before, more, rule, x, hne, hfind, hselect, hx⟩
    obtain ⟨hmem, hpath⟩ := (hholds.find_iff _ rule).mp hfind
    exact ⟨x, ⟨rule, hmem, before, more, hne, hpath, hselect⟩, hx⟩
  · rintro ⟨x, ⟨rule, hmem, before, more, hne, hpath, hselect⟩, hx⟩
    exact ⟨before, more, rule, x, hne, (hholds.find_iff _ _).mpr ⟨hmem, hpath⟩, hselect, hx⟩

/-- What an allowlist of these rules promises of every redactor and every input. -/
structure Noninterfering (rules : List FieldRule) (allowlist : FieldAllowlist)
    (redactor : LayeredRedactor rt.Text) : Prop where
  /-- The order of the rules makes no difference. -/
  order : ∀ reordered, rules.Perm reordered → ∃ other, fieldAllowlist reordered = .ok other ∧
    other.rules = allowlist.rules ∧
    ∀ value, applyFieldAllowlist redactor other value = applyFieldAllowlist redactor allowlist value
  /-- Inputs with the same leaves have the same output and counts. -/
  agree : ∀ value other out out',
    (∀ rule ∈ rules, select rule.path value = select rule.path other) →
    applyFieldAllowlist redactor allowlist value = .ok out →
    applyFieldAllowlist redactor allowlist other = .ok out' →
    out.value = out'.value ∧ out.redactions = out'.redactions
  /-- The output has nothing off the paths of the rules. -/
  confined : ∀ value out, applyFieldAllowlist redactor allowlist value = .ok out →
    ∀ path x, select path (.object out.value) = some x → (∃ rule ∈ rules, rule.path = path) ∨
      (x.isObject = true ∧ ∃ rule ∈ rules, path <+: rule.path ∧ path ≠ rule.path)
  /-- An input that is let through has every required leaf, and objects on the way. -/
  complete : ∀ value out,
    (∀ rule ∈ rules, ∀ x, select rule.path value = some x →
      ∃ leaf, transformLeaf redactor rule x = .ok leaf) →
    applyFieldAllowlist redactor allowlist value = .ok out →
    (∀ rule ∈ rules, rule.required = true → select rule.path value ≠ none) ∧
      ∀ x, OnAPath rules value x → x.isObject = true
  /-- Where the leaves are valid, every error is a fault of the input. -/
  faults : ∀ members e,
    (∀ rule ∈ rules, ∀ x, select rule.path (.object members) = some x →
      ∃ leaf, transformLeaf redactor rule x = .ok leaf) →
    applyFieldAllowlist redactor allowlist (.object members) = .error e →
    (e = missingField ∧
      ∃ rule ∈ rules, rule.required = true ∧ select rule.path (.object members) = none) ∨
    (e = notAnObject ∧ ∃ x, OnAPath rules (.object members) x ∧ IsNoObject x) ∨
    (e = tooManyFields ∧ ∃ x, OnAPath rules (.object members) x ∧ IsLarge x)
  /-- Where what is on the way is an object of bounded size, a required leaf that is not there is
  the only fault. -/
  missing : ∀ value,
    (∀ rule ∈ rules, ∀ x, select rule.path value = some x →
      ∃ leaf, transformLeaf redactor rule x = .ok leaf) →
    (∀ x, OnAPath rules value x → ¬ IsNoObject x ∧ ¬ IsLarge x) →
    (applyFieldAllowlist redactor allowlist value = .error missingField ↔
      ∃ rule ∈ rules, rule.required = true ∧ select rule.path value = none)

theorem validLeaves_of (hholds : Holds rules allowlist.root) {value : FieldValue rt}
    (h : ∀ rule ∈ rules, ∀ x, select rule.path value = some x →
      ∃ leaf, transformLeaf redactor rule x = .ok leaf) :
    ValidLeaves redactor allowlist.root value := by
  intro path rule x hfind hselect
  obtain ⟨hmem, rfl⟩ := (hholds.find_iff path rule).mp hfind
  exact h rule hmem x hselect

theorem exists_find (hholds : Holds rules allowlist.root) (hne : rules ≠ []) :
    ∃ path rule, find path allowlist.root = some rule := by
  obtain ⟨rule, rest, rfl⟩ := List.exists_cons_of_ne_nil hne
  exact ⟨rule.path, rule, (hholds.find_iff _ _).mpr ⟨List.mem_cons_self, rfl⟩⟩

/-- A list in another order makes the same allowlist, up to the order of the children. -/
theorem fieldAllowlist_perm {reordered : List FieldRule}
    (h : fieldAllowlist rules = .ok allowlist) (hperm : rules.Perm reordered) :
    ∃ other, fieldAllowlist reordered = .ok other ∧ other.rules = allowlist.rules ∧
      ∀ path, find path other.root = find path allowlist.root := by
  have hsymm : ∀ a b, Distinct a b → Distinct b a := fun a b hab => ⟨hab.2, hab.1⟩
  obtain ⟨hne, hlength, hpairwise⟩ := (fieldAllowlist_ok_iff rules).mp ⟨_, h⟩
  obtain ⟨-, hholds, hrules⟩ := holds_of_fieldAllowlist h
  obtain ⟨other, hother⟩ := (fieldAllowlist_ok_iff reordered).mpr
    ⟨fun hnil => hne (List.Perm.eq_nil (hnil ▸ hperm)), hperm.length_eq ▸ hlength,
      (hperm.pairwise_iff (fun {a b} => hsymm a b)).mp hpairwise⟩
  obtain ⟨-, hholds', hrules'⟩ := holds_of_fieldAllowlist hother
  refine ⟨other, hother, ?_, fun path => ?_⟩
  · rw [hrules, hrules']
    have : Std.Total fun a b : FieldRule => a.path ≤ b.path := ⟨fun a b => le_total a.path b.path⟩
    have : IsTrans FieldRule fun a b => a.path ≤ b.path := ⟨fun _ _ _ h h' => le_trans h h'⟩
    refine (insertionSort_congr hperm fun a ha b hb hle hge => ?_).symm
    by_contra hab
    have : Std.Symm Distinct := ⟨hsymm⟩
    have hdistinct := hpairwise.forall ha hb hab
    exact hdistinct.1 (le_antisymm hle hge ▸ List.prefix_refl _)
  · cases hfind : find path allowlist.root with
    | none =>
        by_contra hsome
        obtain ⟨rule, hrule⟩ := Option.ne_none_iff_exists'.mp hsome
        obtain ⟨hmem, rfl⟩ := (hholds'.find_iff _ _).mp hrule
        have := (hholds.find_iff _ rule).mpr ⟨hperm.mem_iff.mpr hmem, rfl⟩
        rw [hfind] at this
        cases this
    | some rule =>
        obtain ⟨hmem, rfl⟩ := (hholds.find_iff _ _).mp hfind
        exact (hholds'.find_iff _ _).mpr ⟨hperm.mem_iff.mp hmem, rfl⟩

/-- Every accepted list of rules shows of an input only what its paths select. -/
theorem noninterfering (h : fieldAllowlist rules = .ok allowlist) :
    Noninterfering rules allowlist redactor := by
  obtain ⟨hne, hholds, -⟩ := holds_of_fieldAllowlist h
  have hfaults : ∀ value : FieldValue rt, ValidLeaves redactor allowlist.root value → _ :=
    fun value hvalid => filterNode_faults hholds.prefixFree (exists_find hholds hne) hvalid []
  constructor
  case order =>
    intro reordered hperm
    obtain ⟨other, hother, hrules, hfind⟩ := fieldAllowlist_perm h hperm
    obtain ⟨-, hholds', -⟩ := holds_of_fieldAllowlist hother
    refine ⟨other, hother, hrules, fun value => ?_⟩
    unfold applyFieldAllowlist
    rw [filterNode_congr hholds'.prefixFree hholds.prefixFree hfind]
  case agree =>
    intro value other out out' hsame hout hout'
    obtain ⟨r, hr, hvalue, hcounts⟩ := applyFieldAllowlist_ok hholds hout
    obtain ⟨r', hr', hvalue', hcounts'⟩ := applyFieldAllowlist_ok hholds hout'
    have hagree : ∀ path rule, find path allowlist.root = some rule →
        select path value = select path other := by
      intro path rule hfind
      obtain ⟨hmem, rfl⟩ := (hholds.find_iff path rule).mp hfind
      exact hsame rule hmem
    obtain ⟨heq, -, hcount⟩ := filterNode_agree hholds.prefixFree hagree hr hr'
    rw [hvalue, hvalue'] at heq
    exact ⟨FieldValue.object.inj heq, by rw [← hcounts, ← hcounts', hcount]⟩
  case confined =>
    intro value out hout path x hx
    obtain ⟨r, hr, hvalue, -⟩ := applyFieldAllowlist_ok hholds hout
    rw [← hvalue] at hx
    rcases filterNode_confined hholds.prefixFree hr hx with
      ⟨rule, hrule⟩ | ⟨rfl, -⟩ | ⟨hobject, more, rule, hmore, hrule⟩
    · obtain ⟨hmem, hpath⟩ := (hholds.find_iff _ _).mp hrule
      exact Or.inl ⟨rule, hmem, hpath⟩
    · -- the output itself
      obtain rfl := Option.some.inj hx
      obtain ⟨rule, rest, rfl⟩ := List.exists_cons_of_ne_nil hne
      exact Or.inr ⟨by rw [hvalue]; rfl, rule, List.mem_cons_self, List.nil_prefix,
        rule.path_ne_nil.symm⟩
    · obtain ⟨hmem, hpath⟩ := (hholds.find_iff _ _).mp hrule
      refine Or.inr ⟨hobject, rule, hmem, ⟨more, hpath.symm⟩, fun heq => hmore ?_⟩
      rw [hpath] at heq
      exact List.self_eq_append_right.mp heq
  case complete =>
    intro value out hvalid hout
    obtain ⟨r, hr, -⟩ := applyFieldAllowlist_ok hholds hout
    have hfaultless := (hfaults value (validLeaves_of hholds hvalid)).1 r hr
    constructor
    · intro rule hmem hrequired hselect
      exact hfaultless.complete ((missing_iff hholds value).mpr ⟨rule, hmem, hrequired, hselect⟩)
    · intro x hx
      cases hobject : x.isObject with
      | true => rfl
      | false =>
          exact absurd ((onTheWay_iff hholds IsNoObject value).mpr ⟨x, hx, hobject⟩)
            hfaultless.objects
  case faults =>
    intro members e hvalid he
    rcases applyFieldAllowlist_object hholds members with ⟨_, _, -, -, happly⟩ | ⟨e', he', happly⟩
    · rw [happly] at he
      cases he
    · rw [happly] at he
      obtain rfl := Except.error.inj he
      rcases (hfaults _ (validLeaves_of hholds hvalid)).2 _ he' with
        ⟨rfl, hfault⟩ | ⟨rfl, hfault⟩ | ⟨rfl, hfault⟩
      · exact Or.inl ⟨rfl, (missing_iff hholds _).mp hfault⟩
      · exact Or.inr (Or.inl ⟨rfl, (onTheWay_iff hholds _ _).mp hfault⟩)
      · exact Or.inr (Or.inr ⟨rfl, (onTheWay_iff hholds _ _).mp hfault⟩)
  case missing =>
    intro value hvalid hway
    obtain ⟨first, rest, hrules⟩ := List.exists_cons_of_ne_nil hne
    have hroot : OnAPath rules value value := ⟨first, by rw [hrules]; exact List.mem_cons_self, [],
      first.path, first.path_ne_nil, rfl, rfl⟩
    obtain ⟨members, rfl⟩ : ∃ members, value = .object members := by
      cases value with
      | object members => exact ⟨members, rfl⟩
      | _ => exact absurd rfl (hway _ hroot).1
    rw [← missing_iff hholds]
    obtain ⟨hok, herror⟩ := hfaults _ (validLeaves_of hholds hvalid)
    rcases applyFieldAllowlist_object hholds members with ⟨r, _, hr, -, happly⟩ | ⟨e, he, happly⟩
    · rw [happly]
      exact ⟨nofun, fun hmissing => absurd hmissing (hok r hr).complete⟩
    · rw [happly]
      rcases herror e he with ⟨rfl, hfault⟩ | ⟨rfl, hfault⟩ | ⟨rfl, hfault⟩
      · exact ⟨fun _ => hfault, fun _ => rfl⟩
      · obtain ⟨x, hx, hbad⟩ := (onTheWay_iff hholds _ _).mp hfault
        exact absurd hbad (hway x hx).1
      · obtain ⟨x, hx, hbad⟩ := (onTheWay_iff hholds _ _).mp hfault
        exact absurd hbad (hway x hx).2

/-- **One to a hundred rules make an allowlist exactly if no path equals or begins another, and
every allowlist is noninterfering.** -/
theorem fieldAllowlist_noninterfering (rt : FieldRuntime) (redactor : LayeredRedactor rt.Text)
    (rules : List FieldRule) :
    ((∃ allowlist, fieldAllowlist rules = .ok allowlist) ↔
      rules ≠ [] ∧ rules.length ≤ maxFieldRules ∧ rules.Pairwise Distinct) ∧
    ∀ allowlist, fieldAllowlist rules = .ok allowlist →
      Noninterfering rules allowlist redactor :=
  ⟨fieldAllowlist_ok_iff rules, fun _ h => noninterfering h⟩

/-! ### Samples -/

/-- One required field. -/
def sampleRule : FieldRule where
  path := ["a"]
  kind := .scalar
  required := true
  allowedQueryKeys := ∅
  path_ne_nil := List.cons_ne_nil _ _
  shallow := by decide
  segments := by decide
  queryKeys := ⟨Nat.zero_le _, fun _ h => absurd h (Finset.notMem_empty _)⟩
  onlyUrl _ := rfl

def sampleAllowlist : FieldAllowlist :=
  ⟨.node [("a", .node [] (some sampleRule))] none, [sampleRule]⟩

def sampleRuntime : FieldRuntime := ⟨String, Unit, fun _ => true, Unit⟩

def sampleRedactor : LayeredRedactor sampleRuntime.Text :=
  ⟨fun text => .ok ⟨text, []⟩, fun text => .ok ⟨text, []⟩, fun _ text => .ok ⟨text, []⟩⟩

/-- An object of 1,001 fields. -/
def sampleLarge : List (String × FieldValue sampleRuntime) :=
  (List.range 1001).map fun n => ("f" ++ toString n, .bool true)

/-- No rule makes no allowlist, though no path begins another; and an input with too many fields and
without a required one is refused for its size. -/
theorem fieldAllowlist_guards :
    ¬ ((∃ allowlist, fieldAllowlist [] = .ok allowlist) ↔ ([] : List FieldRule).Pairwise Distinct) ∧
    fieldAllowlist [sampleRule] = .ok sampleAllowlist ∧
    select sampleRule.path (.object sampleLarge) = none ∧
    applyFieldAllowlist sampleRedactor sampleAllowlist (.object sampleLarge) =
      .error tooManyFields := by
  refine ⟨fun h => ?_, rfl, ?_, ?_⟩
  · obtain ⟨allowlist, h⟩ := h.mpr List.Pairwise.nil
    cases h
  · have hnone : sampleLarge.lookup "a" = none := by
      rw [List.lookup_eq_none_iff]
      intro m hm
      obtain ⟨n, -, rfl⟩ := List.mem_map.mp hm
      refine bne_iff_ne.mpr fun heq => ?_
      have hchars := congrArg String.toList heq
      rw [String.toList_append] at hchars
      exact absurd (List.cons.inj hchars).1 (by decide)
    show (sampleLarge.lookup "a").bind (select []) = none
    rw [hnone]
    rfl
  · have hlarge : maxInputFieldsPerObject < sampleLarge.length := by
      simp [sampleLarge, maxInputFieldsPerObject]
    have hfilter : filterNode sampleRedactor sampleAllowlist.root (.object sampleLarge) [] =
        .error tooManyFields :=
      (filterNode_object _ sampleLarge []).trans (if_pos hlarge)
    unfold applyFieldAllowlist
    rw [hfilter]
    rfl

/-- An optional field of an object. -/
def sampleNested : FieldRule where
  path := ["b", "c"]
  kind := .text
  required := false
  allowedQueryKeys := ∅
  path_ne_nil := List.cons_ne_nil _ _
  shallow := by decide
  segments := by decide
  queryKeys := ⟨Nat.zero_le _, fun _ h => absurd h (Finset.notMem_empty _)⟩
  onlyUrl _ := rfl

/-- Two rules whose paths part at once make an allowlist, and it is noninterfering. -/
theorem fieldAllowlist_noninterfering_sample : ∃ allowlist,
    fieldAllowlist [sampleNested, sampleRule] = .ok allowlist ∧
      Noninterfering [sampleNested, sampleRule] allowlist sampleRedactor := by
  obtain ⟨hmakes, hall⟩ := fieldAllowlist_noninterfering sampleRuntime sampleRedactor
    [sampleNested, sampleRule]
  have hdistinct : [sampleNested, sampleRule].Pairwise Distinct := by
    unfold Distinct
    decide
  obtain ⟨allowlist, hallowlist⟩ := hmakes.mpr ⟨List.cons_ne_nil _ _, by decide, hdistinct⟩
  exact ⟨allowlist, hallowlist, hall allowlist hallowlist⟩

end Allowlists

end Milhouse.Allowlist
