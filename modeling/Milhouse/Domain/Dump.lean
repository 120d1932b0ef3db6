import Milhouse.Core.CanonicalNormal

/-!
# Milhouse — the dumps of models and their normal forms

A model is given by its fields: their names, and the values `model_dump(exclude_none=True)` makes of
them. Fields with distinct plain names make the normal form of a dump a matter of each field alone.

* **`normal_dump_eq_iff`** — two dumps have one normal form exactly when every field has;
* `dumpFields_filter`, `dumpFields_map` — dropping and replacing members of a dump is dropping and
  replacing fields.
-/

namespace Milhouse.Domain

open Json

/-- A field of a model, with its value in a dump; one that is `None` is left out. -/
structure Field (P : CanonicalPlatform) (α : Type) where
  name : String
  get : α → Option (PyValue P.runtime.Float)

section Dump

variable {P : CanonicalPlatform} {α : Type}

/-- Two models have the same field after normalization. -/
def Field.Same (f : Field P α) (x y : α) : Prop := (f.get x).map (normal P) = (f.get y).map (normal P)

/-- The members of a dump. -/
def dumpFields (fields : List (Field P α)) (x : α) : List (String × PyValue P.runtime.Float) :=
  fields.filterMap fun f => (f.get x).map fun v => (f.name, v)

/-- `model_dump(mode="python", exclude_none=True)`. -/
def dump (fields : List (Field P α)) (x : α) : PyValue P.runtime.Float := .dict (dumpFields fields x)

/-- Fields whose names are distinct and are normalized as they stand. -/
structure PlainFields (fields : List (Field P α)) : Prop where
  distinct : (fields.map (·.name)).Nodup
  ascii : ∀ f ∈ fields, IsAsciiText f.name.toList

/-- Names that are distinct and plain. -/
def plainNames (names : List String) : Bool :=
  decide names.Nodup && names.all fun name => name.toList.all fun c => c.toNat < 128 && c ≠ '\r'

theorem PlainFields.of_names {fields : List (Field P α)}
    (h : plainNames (fields.map (·.name)) = true) : PlainFields fields where
  distinct := by
    unfold plainNames at h
    exact of_decide_eq_true (Bool.and_eq_true_iff.mp h).1
  ascii f hf c hc := by
    unfold plainNames at h
    have hname := List.all_eq_true.mp (Bool.and_eq_true_iff.mp h).2 f.name (List.mem_map_of_mem hf)
    have hchar := List.all_eq_true.mp hname c hc
    rw [Bool.and_eq_true, decide_eq_true_eq, decide_eq_true_eq] at hchar
    exact hchar

/-- What is normalized of a dump, field by field. -/
theorem map_dumpFields {fields : List (Field P α)} (h : ∀ f ∈ fields, IsAsciiText f.name.toList)
    (x : α) :
    (dumpFields fields x).map (fun m => (normalizeString P.runtime m.1, normal P m.2)) =
      fields.filterMap fun f => ((f.get x).map (normal P)).map fun n => (f.name, n) := by
  unfold dumpFields
  rw [List.map_filterMap]
  refine List.filterMap_congr fun f hf => ?_
  cases f.get x with
  | none => rfl
  | some v =>
      show some (normalizeString P.runtime f.name, normal P v) = some (f.name, normal P v)
      rw [normalizeString_ascii (h f hf)]

theorem mem_filterMap_name {β : Type} {fields : List (Field P α)}
    (hdistinct : (fields.map (·.name)).Nodup) {g : Field P α → Option β} {f : Field P α}
    (hf : f ∈ fields) (b : β) :
    (f.name, b) ∈ fields.filterMap (fun f => (g f).map fun b => (f.name, b)) ↔ g f = some b := by
  rw [List.mem_filterMap]
  constructor
  · rintro ⟨f', hf', h⟩
    obtain ⟨b', hb', heq⟩ := Option.map_eq_some_iff.mp h
    obtain ⟨hname, rfl⟩ := Prod.mk.inj heq
    -- no other field has the name
    rw [← List.inj_on_of_nodup_map hdistinct hf' hf hname]
    exact hb'
  · intro hb
    exact ⟨f, hf, Option.map_eq_some_iff.mpr ⟨b, hb, rfl⟩⟩

theorem filterMap_name_sublist {β : Type} (fields : List (Field P α)) (g : Field P α → Option β) :
    (fields.filterMap fun f => (g f).map fun _ => f.name).Sublist (fields.map (·.name)) := by
  induction fields with
  | nil => exact List.Sublist.slnil
  | cons f fields ih =>
      rw [List.filterMap_cons, List.map_cons]
      cases g f with
      | none => exact ih.cons f.name
      | some b => exact ih.cons_cons f.name

theorem nodup_dumpFields {fields : List (Field P α)} (h : PlainFields fields) (x : α) :
    ((dumpFields fields x).map fun m => normalizeString P.runtime m.1).Nodup := by
  have hnames : ((dumpFields fields x).map fun m => normalizeString P.runtime m.1) =
      fields.filterMap fun f => (f.get x).map fun _ => f.name := by
    unfold dumpFields
    rw [List.map_filterMap]
    refine List.filterMap_congr fun f hf => ?_
    cases f.get x with
    | none => rfl
    | some v =>
        show some (normalizeString P.runtime f.name) = some f.name
        rw [normalizeString_ascii (h.ascii f hf)]
  rw [hnames]
  exact List.Nodup.sublist (filterMap_name_sublist fields fun f => f.get x) h.distinct

/-- **Two dumps have one normal form** exactly when each field has. -/
theorem normal_dump_eq_iff {fields : List (Field P α)} (h : PlainFields fields) (x y : α) :
    normal P (dump fields x) = normal P (dump fields y) ↔ ∀ f ∈ fields, f.Same x y := by
  unfold dump
  rw [normal_dict_eq_iff (nodup_dumpFields h x) (nodup_dumpFields h y), map_dumpFields h.ascii,
    map_dumpFields h.ascii]
  constructor
  · intro hperm f hf
    apply Option.ext
    intro n
    have hx := mem_filterMap_name h.distinct (g := fun f => (f.get x).map (normal P)) hf n
    have hy := mem_filterMap_name h.distinct (g := fun f => (f.get y).map (normal P)) hf n
    exact hx.symm.trans (hperm.mem_iff.trans hy)
  · intro hsame
    rw [List.filterMap_congr fun f hf => by rw [hsame f hf]]

/-- Members that are dropped by their names are fields that are dropped. -/
theorem dumpFields_filter (fields : List (Field P α)) (p : String → Bool) (x : α) :
    (dumpFields fields x).filter (fun m => p m.1) =
      dumpFields (fields.filter fun f => p f.name) x := by
  unfold dumpFields
  induction fields with
  | nil => rfl
  | cons f fields ih =>
      rw [List.filter_cons, List.filterMap_cons]
      cases hget : f.get x with
      | none =>
          rw [Option.map_none]
          dsimp only
          rw [ih]
          split
          · rw [List.filterMap_cons, hget]
            rfl
          · rfl
      | some v =>
          rw [Option.map_some]
          dsimp only
          rw [List.filter_cons, ih]
          split
          · rw [List.filterMap_cons, hget]
            rfl
          · rfl

/-- A member whose value is replaced is a field that is replaced. -/
theorem dumpFields_map (fields : List (Field P α)) (name : String)
    (g : PyValue P.runtime.Float → PyValue P.runtime.Float) (x : α) :
    (dumpFields fields x).map (fun m => if m.1 = name then (m.1, g m.2) else m) =
      dumpFields (fields.map fun f =>
        if f.name = name then { f with get := fun x => (f.get x).map g } else f) x := by
  unfold dumpFields
  rw [List.map_filterMap, List.filterMap_map]
  refine List.filterMap_congr fun f _ => ?_
  show ((f.get x).map fun v => (f.name, v)).map (fun m => if m.1 = name then (m.1, g m.2) else m) = _
  cases hget : f.get x <;> by_cases hname : f.name = name <;> simp [hname, hget]

end Dump

end Milhouse.Domain
