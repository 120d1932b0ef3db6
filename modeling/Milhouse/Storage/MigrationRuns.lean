import Milhouse.Storage.Runner
import Mathlib.Data.List.Induction

/-!
# Milhouse — runs of the ClickHouse migrations

`Sound` is what a destination keeps whatever is cut: the ledger records a prefix of the packaged
migrations, every table has the definition it is meant to have, and the transition log holds every
inserted row. Only inside `0005` does it matter where a run is: the swap is reached after the copy of
the same run, and the copy starts from a scratch table that was just dropped.

* `Stage` — a program that keeps the destination sound at every point, with its rules;
* **`stage_dedup`** — the copy, the swap and the drop of `0005` are such a program;
* **`stage_migrate`** — and so is every call of `migrate`.
-/

namespace Milhouse.ClickHouse

open Interaction Transition

variable {checksum : Nat → List Char} {k : Nat}

/-! ## The ledger -/

/-- The ledger records the packaged migrations up to a version. -/
structure Recorded (checksum : Nat → List Char) (k : Nat) (rows : List MigrationRow) : Prop where
  versions : ∀ version, (∃ row ∈ rows, row.version = version) ↔ 1 ≤ version ∧ version ≤ k
  identity : ∀ row ∈ rows, ∃ migration,
    (clickhouseMigrations checksum)[row.version - 1]? = some migration ∧
      row.name = migration.name ∧ row.checksum = migration.checksum

/-- A row that `FINAL` returns is a row of the ledger, and every version has one. -/
theorem finalLedger_spec (rows : List MigrationRow) :
    (∀ version row, (finalLedger rows).lookup version = some row → row ∈ rows ∧
      row.version = version) ∧
    ∀ version, ((finalLedger rows).lookup version).isSome ↔ ∃ row ∈ rows, row.version = version := by
  induction rows using List.reverseRecOn with
  | nil => exact ⟨nofun, fun version => ⟨nofun, nofun⟩⟩
  | append_singleton rows row ih =>
      obtain ⟨hmem, hsome⟩ := ih
      have hfold : finalLedger (rows ++ [row]) = supersede (finalLedger rows) row := by
        unfold finalLedger
        rw [List.foldl_append]
        rfl
      -- the new row stands for its version, or an older one does already
      have hcases : finalLedger (rows ++ [row]) = (finalLedger rows).insert row.version row ∨
          (finalLedger (rows ++ [row]) = finalLedger rows ∧
            ((finalLedger rows).lookup row.version).isSome) := by
        rw [hfold]
        unfold supersede
        split
        · exact Or.inl rfl
        · rename_i last hlast
          split
          · exact Or.inl rfl
          · exact Or.inr ⟨rfl, by rw [hlast]; rfl⟩
      have hold : ∀ version, (∃ r ∈ rows, r.version = version) →
          ∃ r ∈ rows ++ [row], r.version = version :=
        fun version ⟨r, hr, hv⟩ => ⟨r, List.mem_append_left _ hr, hv⟩
      rcases hcases with hinsert | ⟨hsame, hthere⟩
      · rw [hinsert]
        refine ⟨fun version r h => ?_, fun version => ?_⟩
        · by_cases hv : version = row.version
          · subst hv
            rw [AList.lookup_insert] at h
            cases h
            exact ⟨by simp, rfl⟩
          · rw [AList.lookup_insert_ne hv] at h
            obtain ⟨hr, hrv⟩ := hmem version r h
            exact ⟨List.mem_append_left _ hr, hrv⟩
        · by_cases hv : version = row.version
          · subst hv
            rw [AList.lookup_insert]
            exact ⟨fun _ => ⟨row, by simp, rfl⟩, fun _ => rfl⟩
          · rw [AList.lookup_insert_ne hv, hsome]
            refine ⟨hold version, fun ⟨r, hr, hrv⟩ => ?_⟩
            rcases List.mem_append.mp hr with hr | hr
            · exact ⟨r, hr, hrv⟩
            · rw [List.mem_singleton.mp hr] at hrv
              exact absurd hrv.symm hv
      · rw [hsame]
        refine ⟨fun version r h => ?_, fun version => ?_⟩
        · obtain ⟨hr, hrv⟩ := hmem version r h
          exact ⟨List.mem_append_left _ hr, hrv⟩
        · rw [hsome]
          refine ⟨hold version, fun ⟨r, hr, hrv⟩ => ?_⟩
          rcases List.mem_append.mp hr with hr | hr
          · exact ⟨r, hr, hrv⟩
          · rw [List.mem_singleton.mp hr] at hrv
            exact (hsome version).mp (hrv ▸ hthere)

/-- The ledger under `FINAL` has one row for each recorded version. -/
theorem Recorded.lookup {rows : List MigrationRow} (h : Recorded checksum k rows) (version : Nat) :
    ((finalLedger rows).lookup version).isSome ↔ 1 ≤ version ∧ version ≤ k :=
  ((finalLedger_spec rows).2 version).trans (h.versions version)

/-- The packaged migrations count from one. -/
theorem packaged_version {index : Nat} {migration : StorageMigration}
    (h : (clickhouseMigrations checksum)[index]? = some migration) :
    migration.version = index + 1 := by
  have hall : ∀ index (hindex : index < (clickhouseMigrations checksum).length),
      (clickhouseMigrations checksum)[index].version = index + 1 := by
    intro index hindex
    match index, hindex with
    | 0, _ | 1, _ | 2, _ | 3, _ | 4, _ | 5, _ => rfl
  obtain ⟨hlt, rfl⟩ := List.getElem?_eq_some_iff.mp h
  exact hall index hlt

theorem length_packaged : (clickhouseMigrations checksum).length = 6 := rfl

/-- A ledger of recorded packaged migrations is accepted. -/
theorem Recorded.accepted {applied : Table Nat MigrationRow} (hk : k ≤ 6)
    (hlookup : ∀ version, (applied.lookup version).isSome ↔ 1 ≤ version ∧ version ≤ k)
    (hidentity : ∀ version row, applied.lookup version = some row → ∃ migration,
      (clickhouseMigrations checksum)[version - 1]? = some migration ∧
        row.name = migration.name ∧ row.checksum = migration.checksum) :
    validateAppliedPrefix applied (clickhouseMigrations checksum) = .ok () := by
  unfold validateAppliedPrefix
  simp only [Versions.sorted_keys hlookup, Versions.getLastD_range', List.length_range']
  by_cases hempty : List.range' 1 k = []
  · rw [if_pos hempty]
  · rw [if_neg hempty, if_neg (by simp), if_neg (by rw [length_packaged]; omega)]
    rw [if_neg]
    rw [Bool.not_eq_true, List.any_eq_false]
    intro migration hmem
    obtain ⟨index, hindex, rfl⟩ := List.mem_take_iff_getElem.mp hmem
    have hlt : index < (clickhouseMigrations checksum).length := by omega
    have hget := List.getElem?_eq_getElem hlt
    rw [packaged_version hget]
    obtain ⟨row, hrow⟩ := Option.isSome_iff_exists.mp
      ((hlookup (index + 1)).mpr ⟨by omega, by omega⟩)
    obtain ⟨migration, hmigration, hname, hchecksum⟩ := hidentity _ _ hrow
    rw [Nat.add_sub_cancel, hget] at hmigration
    cases hmigration
    rw [hrow, Option.map_some, hname, hchecksum]
    simp

/-! ## Sound destinations -/

/-- What the tables and views are defined as once every migration is applied. -/
def targets : List (String × String) :=
  [(ledgerTable, ledgerDefinition), ("records", recordsDefinition),
    ("feedback_items", itemsDefinition), (transitionsTable, dedupDefinition),
    ("records_current", recordsCurrentDefinition), ("feedback_current", feedbackCurrentDefinition),
    ("_installation", installationDefinition)]

/-- The tables and views that each migration creates for good. -/
def creations : List (List String) :=
  [[ledgerTable], ["records"], ["feedback_items", transitionsTable],
    ["records_current", "feedback_current"], [], ["_installation"]]

/-- The tables and views that the first migrations create. -/
def createdBy (k : Nat) : List String := (creations.take k).flatten

/-- What the tables of a destination keep, apart from what its ledger says. -/
structure SoundTables (inserted : List TransitionRow) (w : Warehouse) : Prop where
  database : ∀ name table, w.tables.lookup name = some table → w.database = true
  defined : ∀ name table, w.tables.lookup name = some table → name ≠ transitionsTable →
    name ≠ scratchTable → targets.lookup name = some table.definition
  live : ∀ table, w.tables.lookup transitionsTable = some table →
    (table.definition = appendOnlyDefinition ∨ table.definition = dedupDefinition) ∧
      Merged inserted table.transitions
  unlogged : w.tables.lookup transitionsTable = none → inserted = []

/-- The first migrations are done. -/
structure Done (k : Nat) (w : Warehouse) : Prop where
  created : ∀ name ∈ createdBy k, (w.tables.lookup name).isSome
  deduped : 5 ≤ k → w.tables.lookup scratchTable = none ∧
    w.definition transitionsTable = some dedupDefinition

/-- A destination whose ledger records the first migrations, which are done. -/
structure Sound (checksum : Nat → List Char) (k : Nat) (inserted : List TransitionRow)
    (w : Warehouse) : Prop where
  bound : k ≤ 6
  tables : SoundTables inserted w
  done : Done k w
  ledger : ∀ rows, w.ledger = some rows → Recorded checksum k rows
  unrecorded : w.ledger = none → k = 0

section Tables

variable {inserted : List TransitionRow} {w w' : Warehouse} {name : String}

@[simp] theorem setTable_database (table : StoredTable) :
    (w.setTable name table).database = w.database := rfl

/-- Storing a table changes what is found under its own name only. -/
theorem lookup_setTable (table : StoredTable) (other : String) :
    (w.setTable name table).tables.lookup other =
      if other = name then some table else w.tables.lookup other := by
  unfold Warehouse.setTable
  by_cases h : other = name
  · subst h
    rw [if_pos rfl, AList.lookup_insert]
  · rw [if_neg h, AList.lookup_insert_ne h]

/-- A create needs the database, and leaves a table that exists alone. -/
theorem run_create {definition : String} (h : w.run (.create name definition) = some w') :
    w.database = true ∧ (((w.tables.lookup name).isSome ∧ w' = w) ∨
      (w.tables.lookup name = none ∧ w' = w.setTable name ⟨definition, []⟩)) := by
  have h : (if !w.database then none else if (w.tables.lookup name).isSome then some w
      else some (w.setTable name ⟨definition, []⟩)) = some w' := h
  split at h
  · cases h
  · rename_i hdatabase
    refine ⟨by simpa using hdatabase, ?_⟩
    split at h
    · rename_i hthere
      exact Or.inl ⟨hthere, (Option.some.inj h).symm⟩
    · rename_i hnone
      exact Or.inr ⟨by simpa using hnone, (Option.some.inj h).symm⟩

theorem run_drop_eq (h : w.database = true) :
    w.run (.drop name) = some { w with tables := w.tables.erase name } := by
  have hrun : w.run (.drop name) =
      if !w.database then none else some { w with tables := w.tables.erase name } := rfl
  rw [hrun, if_neg (by simp [h])]

theorem run_create_eq {definition : String} (h : w.database = true) :
    w.run (.create name definition) = if (w.tables.lookup name).isSome then some w
      else some (w.setTable name ⟨definition, []⟩) := by
  have hrun : w.run (.create name definition) = if !w.database then none
      else if (w.tables.lookup name).isSome then some w
      else some (w.setTable name ⟨definition, []⟩) := rfl
  rw [hrun, if_neg (by simp [h])]

/-- An insert from a select appends the rows of the source to the target. -/
theorem run_insertSelect_eq {into source : String} {target table : StoredTable}
    (htarget : w.tables.lookup into = some target) (hsource : w.tables.lookup source = some table) :
    w.run (.insertSelect into source) =
      some (w.setTable into { target with rows := target.rows ++ table.rows }) := by
  have hrun : w.run (.insertSelect into source) =
      (w.tables.lookup into).bind fun target => (w.tables.lookup source).bind fun table =>
        some (w.setTable into { target with rows := target.rows ++ table.rows }) := rfl
  rw [hrun, htarget, Option.bind_some, hsource, Option.bind_some]

/-- An exchange swaps two tables that exist. -/
theorem run_exchange_eq {first second : String} {a b : StoredTable}
    (ha : w.tables.lookup first = some a) (hb : w.tables.lookup second = some b) :
    w.run (.exchange first second) = some ((w.setTable first b).setTable second a) := by
  have hrun : w.run (.exchange first second) =
      (w.tables.lookup first).bind fun a => (w.tables.lookup second).bind fun b =>
        some ((w.setTable first b).setTable second a) := rfl
  rw [hrun, ha, Option.bind_some, hb, Option.bind_some]

theorem Merged.refl (rows : List TransitionRow) : Merged rows rows :=
  ⟨fun _ h => h, fun row h => ⟨row, h, rfl⟩⟩

/-- Merging in steps is merging. -/
theorem Merged.trans {a b c : List TransitionRow} (h : Merged a b) (h' : Merged b c) :
    Merged a c := by
  refine ⟨fun row hrow => h.1 row (h'.1 row hrow), fun row hrow => ?_⟩
  obtain ⟨mid, hmid, hkey⟩ := h.2 row hrow
  obtain ⟨kept, hkept, hkey'⟩ := h'.2 mid hmid
  exact ⟨kept, hkept, hkey'.trans hkey⟩

/-- Rows that are inserted later do not prevent a merge of the earlier ones. -/
theorem Merged.append {a b c : List TransitionRow} (h : Merged a b) : Merged (a ++ c) (b ++ c) := by
  refine ⟨fun row hrow => ?_, fun row hrow => ?_⟩
  · rcases List.mem_append.mp hrow with hb | hc
    · exact List.mem_append_left _ (h.1 row hb)
    · exact List.mem_append_right _ hc
  · rcases List.mem_append.mp hrow with ha | hc
    · obtain ⟨kept, hkept, hkey⟩ := h.2 row ha
      exact ⟨kept, List.mem_append_left _ hkept, hkey⟩
    · exact ⟨row, List.mem_append_right _ hc, rfl⟩

/-- A table or view that is not the transition log takes its definition. -/
theorem SoundTables.create {definition : String} (h : SoundTables inserted w)
    (htarget : targets.lookup name = some definition) (hlive : name ≠ transitionsTable)
    (hrun : w.run (.create name definition) = some w') : SoundTables inserted w' := by
  obtain ⟨hdatabase, ⟨-, rfl⟩ | ⟨-, rfl⟩⟩ := run_create hrun
  · exact h
  · refine ⟨fun _ _ _ => hdatabase, ?_, ?_, ?_⟩
    · intro other table hother hne hscratch
      rw [lookup_setTable] at hother
      split at hother
      · rename_i hsame
        cases hother
        rw [hsame]
        exact htarget
      · exact h.defined other table hother hne hscratch
    · intro table htable
      rw [lookup_setTable, if_neg (Ne.symm hlive)] at htable
      exact h.live table htable
    · intro hnone
      rw [lookup_setTable, if_neg (Ne.symm hlive)] at hnone
      exact h.unlogged hnone

/-- The transition log is created empty, before any row is inserted. -/
theorem SoundTables.createLog (h : SoundTables inserted w)
    (hrun : w.run (.create transitionsTable appendOnlyDefinition) = some w') :
    SoundTables inserted w' := by
  obtain ⟨hdatabase, ⟨-, rfl⟩ | ⟨hlookup, rfl⟩⟩ := run_create hrun
  · exact h
  · have hempty := h.unlogged hlookup
    refine ⟨fun _ _ _ => hdatabase, ?_, ?_, ?_⟩
    · intro other table hother hne hscratch
      rw [lookup_setTable, if_neg hne] at hother
      exact h.defined other table hother hne hscratch
    · intro table htable
      rw [lookup_setTable, if_pos rfl] at htable
      obtain rfl := Option.some.inj htable
      rw [hempty]
      exact ⟨Or.inl rfl, .refl _⟩
    · intro hnone
      rw [lookup_setTable, if_pos rfl] at hnone
      cases hnone

end Tables

/-! ## What a run keeps at every point -/

section Stage

variable {α β : Type} {inserted : List TransitionRow} {faults : Bool} {w w' : Warehouse}

/-- The destination is sound, however far the ledger records the migrations. -/
def Kept (checksum : Nat → List Char) (inserted : List TransitionRow) (w : Warehouse) : Prop :=
  ∃ k, Sound checksum k inserted w

/-- A value where `P` holds, or an error, where calls may fail. -/
def Outcome (faults : Bool) (P : α → Warehouse → Prop) :
    Except StorageError α → Warehouse → Prop
  | .ok a, w => P a w
  | .error _, _ => faults = true

/-- The program keeps the destination sound at every point, returns only where `P` holds, and raises
only where calls fail. -/
def Stage (checksum : Nat → List Char) (faults : Bool) (inserted : List TransitionRow)
    (p : WarehouseProg α) (P : α → Warehouse → Prop) (w : Warehouse) : Prop :=
  p.Safe (warehouseHandler faults) Eq
    (fun w w' => Kept checksum inserted w → Kept checksum inserted w') (Outcome faults P) w

/-- Stages in sequence: what the first established holds where the second begins. -/
theorem Stage.andThen {p : WarehouseProg α} {f : α → WarehouseProg β} {M : α → Warehouse → Prop}
    {P : β → Warehouse → Prop} (h : Stage checksum faults inserted p M w)
    (hf : ∀ a w, M a w → Stage checksum faults inserted (f a) P w) :
    Stage checksum faults inserted (p.andThen f) P w := by
  refine Prog.Safe.seq h fun r w' hr => ?_
  cases r with
  | error e => exact hr
  | ok a => exact hf a w' hr

theorem Stage.mono {p : WarehouseProg α} {M P : α → Warehouse → Prop}
    (h : Stage checksum faults inserted p M w) (hM : ∀ a w, M a w → P a w) :
    Stage checksum faults inserted p P w := by
  refine Prog.Safe.mono h fun r w' hr => ?_
  cases r with
  | error e => exact hr
  | ok a => exact hM a w' hr

/-- One call: answered, failed, or its answer lost. -/
theorem Stage.op {o : WarehouseOp} {f : o.Resp → WarehouseProg α} {P : α → Warehouse → Prop}
    (hkept : Kept checksum inserted w → Kept checksum inserted (w.answer o).2)
    (hok : Stage checksum faults inserted (f (w.answer o).1) P (w.answer o).2)
    (hfail : ∀ w', faults = true → Stage checksum faults inserted (f o.failure) P w') :
    Stage checksum faults inserted (.op o f) P w := by
  rintro w₁ rfl c r w' hstep
  cases c with
  | ok =>
      have hanswer := Option.some.inj hstep
      have hr : r = (w.answer o).1 := (congrArg Prod.fst hanswer).symm
      have hw : w' = (w.answer o).2 := (congrArg Prod.snd hanswer).symm
      subst hr hw
      exact ⟨hkept, hok⟩
  | fail =>
      have hstep : (if faults then some (o.failure, w) else none) = some (r, w') := hstep
      split at hstep
      · rename_i hfaults
        obtain ⟨rfl, rfl⟩ := Prod.mk.inj (Option.some.inj hstep)
        exact ⟨id, hfail w hfaults⟩
      · cases hstep
  | lost =>
      have hstep : (if faults then some (o.failure, (w.answer o).2) else none) = some (r, w') :=
        hstep
      split at hstep
      · rename_i hfaults
        obtain ⟨rfl, rfl⟩ := Prod.mk.inj (Option.some.inj hstep)
        exact ⟨hkept, hfail _ hfaults⟩
      · cases hstep

/-- One statement that ClickHouse takes. -/
theorem Stage.statement {statement : Statement} {P : Unit → Warehouse → Prop}
    (hrun : w.run statement = some w') (hkept : Kept checksum inserted w')
    (hP : P () w') :
    Stage checksum faults inserted (command (.command statement) id) P w := by
  have hanswer : w.answer (.command statement) = (true, w') := by
    show changed w (w.run statement) = _
    rw [hrun]
    rfl
  apply Stage.op
  · intro _
    rw [hanswer]
    exact hkept
  · rw [hanswer]
    exact hP
  · exact fun w' hfaults => hfaults

/-! ### The migrations that only create -/

/-- Inside a migration: what it has created so far is there. -/
structure Underway (checksum : Nat → List Char) (k : Nat) (inserted : List TransitionRow)
    (names : List String) (w : Warehouse) : Prop where
  sound : Sound checksum k inserted w
  database : w.database = true
  there : ∀ name ∈ names, (w.tables.lookup name).isSome

/-- A statement that creates a table or view as it is meant to be. -/
def Creates : Statement → Prop
  | .create name definition =>
      (targets.lookup name = some definition ∧ name ≠ transitionsTable ∧ name ≠ scratchTable) ∨
        (name = transitionsTable ∧ definition = appendOnlyDefinition)
  | _ => False

/-- A table or view that is there stays as it is, and no other name is touched. -/
theorem lookup_create {name definition other : String}
    (hrun : w.run (.create name definition) = some w')
    (h : other ≠ name ∨ (w.tables.lookup other).isSome) :
    w'.tables.lookup other = w.tables.lookup other := by
  obtain ⟨-, ⟨-, rfl⟩ | ⟨hnone, rfl⟩⟩ := run_create hrun
  · rfl
  · rw [lookup_setTable, if_neg]
    rintro rfl
    rcases h with hne | hsome
    · exact hne rfl
    · rw [hnone] at hsome
      cases hsome

/-- No migration leaves the scratch table behind. -/
theorem createdBy_ne_scratch {n : Nat} {name : String} (h : name ∈ createdBy n) :
    name ≠ scratchTable := by
  have hall : ∀ name ∈ creations.flatten, name ≠ scratchTable := by decide
  obtain ⟨names, hnames, hname⟩ := List.mem_flatten.mp h
  exact hall name (List.mem_flatten.mpr ⟨names, List.mem_of_mem_take hnames, hname⟩)

/-- Creating another table than the scratch table undoes no migration. -/
theorem Done.create {name definition : String} (h : Done k w) (hname : name ≠ scratchTable)
    (hrun : w.run (.create name definition) = some w') : Done k w' := by
  refine ⟨fun other hother => ?_, fun hk => ?_⟩
  · rw [lookup_create hrun (Or.inr (h.created other hother))]
    exact h.created other hother
  · obtain ⟨hscratch, hlive⟩ := h.deduped hk
    have hthere : (w.tables.lookup transitionsTable).isSome := by
      unfold Warehouse.definition at hlive
      rw [← Option.isSome_map, hlive]
      rfl
    refine ⟨?_, ?_⟩
    · rw [lookup_create hrun (Or.inl hname.symm)]
      exact hscratch
    · unfold Warehouse.definition
      rw [lookup_create hrun (Or.inr hthere)]
      exact hlive

/-- Creating leaves what is recorded; the ledger may be what is created. -/
theorem ledger_create {name definition : String}
    (hrun : w.run (.create name definition) = some w') :
    w'.ledger = w.ledger ∨ (w.ledger = none ∧ w'.ledger = some []) := by
  obtain ⟨-, ⟨-, rfl⟩ | ⟨hnone, rfl⟩⟩ := run_create hrun
  · exact Or.inl rfl
  · unfold Warehouse.ledger
    rw [lookup_setTable]
    by_cases hname : ledgerTable = name
    · rw [if_pos hname, hname, hnone]
      exact Or.inr ⟨rfl, rfl⟩
    · rw [if_neg hname]
      exact Or.inl rfl

/-- What changes only outside the ledger leaves what is recorded. -/
theorem Sound.congr (h : Sound checksum k inserted w) (htables : SoundTables inserted w')
    (hdone : Done k w') (hledger : w'.ledger = w.ledger ∨ (w.ledger = none ∧ w'.ledger = some [])) :
    Sound checksum k inserted w' := by
  refine ⟨h.bound, htables, hdone, fun rows hrows => ?_, fun hnone => ?_⟩
  · rcases hledger with hsame | ⟨hnone, hempty⟩
    · exact h.ledger rows (hsame ▸ hrows)
    · rw [hempty] at hrows
      cases hrows
      rw [h.unrecorded hnone]
      exact ⟨fun version => ⟨nofun, fun ⟨h1, h2⟩ => by omega⟩, nofun⟩
  · rcases hledger with hsame | ⟨-, hempty⟩
    · exact h.unrecorded (hsame ▸ hnone)
    · rw [hempty] at hnone
      cases hnone

/-- A create of a migration under way adds its table to those that are there. -/
theorem Underway.create {names : List String} {name definition : String}
    (h : Underway checksum k inserted names w) (hcreates : Creates (.create name definition)) :
    ∃ w', w.run (.create name definition) = some w' ∧
      Underway checksum k inserted (names ++ [name]) w' := by
  obtain ⟨w', hrun⟩ : ∃ w', w.run (.create name definition) = some w' := by
    rw [run_create_eq h.database]
    split
    · exact ⟨w, rfl⟩
    · exact ⟨_, rfl⟩
  have hname : name ≠ scratchTable := by
    rcases hcreates with ⟨-, -, hscratch⟩ | ⟨rfl, -⟩
    · exact hscratch
    · decide
  have htables : SoundTables inserted w' := by
    rcases hcreates with ⟨htarget, hlive, -⟩ | ⟨rfl, rfl⟩
    · exact h.sound.tables.create htarget hlive hrun
    · exact h.sound.tables.createLog hrun
  have hthere : (w'.tables.lookup name).isSome ∧ w'.database = w.database := by
    obtain ⟨-, ⟨hthere, rfl⟩ | ⟨-, rfl⟩⟩ := run_create hrun
    · exact ⟨hthere, rfl⟩
    · rw [lookup_setTable, if_pos rfl]
      exact ⟨rfl, rfl⟩
  refine ⟨w', hrun, h.sound.congr htables (h.sound.done.create hname hrun) (ledger_create hrun),
    hthere.2.trans h.database, fun other hother => ?_⟩
  rcases List.mem_append.mp hother with hold | hnew
  · rw [lookup_create hrun (Or.inr (h.there other hold))]
    exact h.there other hold
  · rw [List.mem_singleton.mp hnew]
    exact hthere.1

/-- The name a statement creates. -/
def Statement.created? : Statement → Option String
  | .create name _ => some name
  | _ => none

/-- A migration that only creates. -/
theorem stage_creates {statements : List Statement} {names : List String}
    (hcreates : ∀ statement ∈ statements, Creates statement)
    (h : Underway checksum k inserted names w) :
    Stage checksum faults inserted (commands statements)
      (fun _ w' => Underway checksum k inserted
        (names ++ statements.filterMap Statement.created?) w') w := by
  induction statements generalizing w names with
  | nil =>
      show Underway checksum k inserted (names ++ []) w
      rw [List.append_nil]
      exact h
  | cons statement rest ih =>
      have hfirst := hcreates statement (List.mem_cons_self ..)
      cases statement with
      | create name definition =>
          obtain ⟨w', hrun, hunderway⟩ := h.create hfirst
          refine Stage.andThen (M := fun _ w => w = w')
            (Stage.statement hrun ⟨k, hunderway.sound⟩ rfl) ?_
          rintro ⟨⟩ w rfl
          refine Stage.mono (ih (fun s hs => hcreates s (List.mem_cons_of_mem _ hs)) hunderway) ?_
          intro _ w'' hdone
          rw [List.append_assoc] at hdone
          exact hdone
      | drop => exact hfirst.elim
      | insertSelect => exact hfirst.elim
      | exchange => exact hfirst.elim

/-! ### The copy, the swap and the drop -/

/-- What changes only the transition log and the scratch table, and keeps the log. -/
theorem Sound.swap {table : StoredTable} (h : Sound checksum 4 inserted w)
    (hdatabase : w'.database = true)
    (hother : ∀ other, other ≠ transitionsTable → other ≠ scratchTable →
      w'.tables.lookup other = w.tables.lookup other)
    (hlive : w'.tables.lookup transitionsTable = some table)
    (hdefinition : table.definition = appendOnlyDefinition ∨ table.definition = dedupDefinition)
    (hrows : Merged inserted table.transitions) : Sound checksum 4 inserted w' := by
  apply h.congr
  · refine ⟨fun _ _ _ => hdatabase, ?_, ?_, ?_⟩
    · intro other table hlookup hne hscratch
      rw [hother other hne hscratch] at hlookup
      exact h.tables.defined other table hlookup hne hscratch
    · intro table' htable'
      rw [hlive] at htable'
      obtain rfl := Option.some.inj htable'
      exact ⟨hdefinition, hrows⟩
    · intro hnone
      rw [hlive] at hnone
      cases hnone
  · refine ⟨fun name hname => ?_, fun hk => absurd hk (by decide)⟩
    by_cases hsame : name = transitionsTable
    · rw [hsame, hlive]
      rfl
    · rw [hother name hsame (createdBy_ne_scratch hname)]
      exact h.done.created name hname
  · refine Or.inl ?_
    unfold Warehouse.ledger
    rw [hother ledgerTable (by decide) (by decide)]

/-- **The deduplication of the transition log loses no row, whichever statement it is cut after**:
the scratch table is fresh when the log is copied into it, and holds the whole log when the two
change places. -/
theorem stage_dedup (h : Underway checksum 4 inserted [] w) :
    Stage checksum faults inserted (commands dedupStatements)
      (fun _ w' => Sound checksum 4 inserted w' ∧ w'.database = true ∧
        w'.tables.lookup scratchTable = none ∧
        w'.definition transitionsTable = some dedupDefinition) w := by
  have hcreated : transitionsTable ∈ createdBy 4 := by decide
  obtain ⟨live, hlive⟩ := Option.isSome_iff_exists.mp (h.sound.done.created _ hcreated)
  obtain ⟨hdefinition, hrows⟩ := h.sound.tables.live live hlive
  have hne : transitionsTable ≠ scratchTable := by decide
  have hkept : ∀ {w' : Warehouse}, Sound checksum 4 inserted w' →
      Kept checksum inserted w' := fun hsound => ⟨4, hsound⟩
  -- the scratch table of an earlier run is dropped
  obtain ⟨w₁, hw₁⟩ : ∃ w₁ : Warehouse, w₁ = { w with tables := w.tables.erase scratchTable } :=
    ⟨_, rfl⟩
  have hrun₁ : w.run (.drop scratchTable) = some w₁ := by rw [hw₁, run_drop_eq h.database]
  have hother₁ : ∀ other, other ≠ scratchTable →
      w₁.tables.lookup other = w.tables.lookup other := by
    intro other hother
    rw [hw₁]
    exact AList.lookup_erase_ne hother
  have hdatabase₁ : w₁.database = true := by rw [hw₁]; exact h.database
  have hscratch₁ : w₁.tables.lookup scratchTable = none := by
    rw [hw₁]
    exact AList.lookup_erase scratchTable w.tables
  have hsound₁ : Sound checksum 4 inserted w₁ :=
    h.sound.swap hdatabase₁ (fun other _ hother => hother₁ other hother)
      ((hother₁ _ hne).trans hlive) hdefinition hrows
  -- a fresh one is created
  obtain ⟨fresh, hfresh⟩ : ∃ fresh : StoredTable, fresh = ⟨dedupDefinition, []⟩ := ⟨_, rfl⟩
  obtain ⟨w₂, hw₂⟩ : ∃ w₂, w₂ = w₁.setTable scratchTable fresh := ⟨_, rfl⟩
  have hrun₂ : w₁.run (.create scratchTable dedupDefinition) = some w₂ := by
    rw [run_create_eq hdatabase₁, hscratch₁, hw₂, hfresh]
    rfl
  have hother₂ : ∀ other, other ≠ scratchTable →
      w₂.tables.lookup other = w.tables.lookup other := by
    intro other hother
    rw [hw₂, lookup_setTable, if_neg hother]
    exact hother₁ other hother
  have hsound₂ : Sound checksum 4 inserted w₂ :=
    h.sound.swap (by rw [hw₂]; exact hdatabase₁) (fun other _ hother => hother₂ other hother)
      ((hother₂ _ hne).trans hlive) hdefinition hrows
  -- the log is copied into it
  obtain ⟨copy, hcopy⟩ : ∃ copy : StoredTable,
      copy = { fresh with rows := fresh.rows ++ live.rows } := ⟨_, rfl⟩
  have hcopied : copy.definition = dedupDefinition ∧ copy.transitions = live.transitions := by
    rw [hcopy, hfresh]
    refine ⟨rfl, ?_⟩
    unfold StoredTable.transitions
    rw [List.nil_append]
  obtain ⟨w₃, hw₃⟩ : ∃ w₃, w₃ = w₂.setTable scratchTable copy := ⟨_, rfl⟩
  have hscratch₂ : w₂.tables.lookup scratchTable = some fresh := by
    rw [hw₂, lookup_setTable, if_pos rfl]
  have hrun₃ : w₂.run (.insertSelect scratchTable transitionsTable) = some w₃ := by
    rw [hw₃, hcopy]
    exact run_insertSelect_eq hscratch₂ ((hother₂ transitionsTable hne).trans hlive)
  have hother₃ : ∀ other, other ≠ scratchTable →
      w₃.tables.lookup other = w.tables.lookup other := by
    intro other hother
    rw [hw₃, lookup_setTable, if_neg hother]
    exact hother₂ other hother
  have hdatabase₃ : w₃.database = true := by rw [hw₃, hw₂]; exact hdatabase₁
  have hsound₃ : Sound checksum 4 inserted w₃ :=
    h.sound.swap hdatabase₃ (fun other _ hother => hother₃ other hother)
      ((hother₃ _ hne).trans hlive) hdefinition hrows
  -- the two change places
  obtain ⟨w₄, hw₄⟩ : ∃ w₄, w₄ = (w₃.setTable transitionsTable copy).setTable scratchTable live :=
    ⟨_, rfl⟩
  have hrun₄ : w₃.run (.exchange transitionsTable scratchTable) = some w₄ := by
    have hscratch₃ : w₃.tables.lookup scratchTable = some copy := by
      rw [hw₃, lookup_setTable, if_pos rfl]
    rw [run_exchange_eq ((hother₃ _ hne).trans hlive) hscratch₃, hw₄]
  have hlive₄ : w₄.tables.lookup transitionsTable = some copy := by
    rw [hw₄, lookup_setTable, if_neg hne, lookup_setTable, if_pos rfl]
  have hother₄ : ∀ other, other ≠ transitionsTable → other ≠ scratchTable →
      w₄.tables.lookup other = w.tables.lookup other := by
    intro other hnl hns
    rw [hw₄, lookup_setTable, if_neg hns, lookup_setTable, if_neg hnl]
    exact hother₃ other hns
  have hdatabase₄ : w₄.database = true := by rw [hw₄]; exact hdatabase₃
  have hsound₄ : Sound checksum 4 inserted w₄ :=
    h.sound.swap hdatabase₄ hother₄ hlive₄ (Or.inr hcopied.1) (by rw [hcopied.2]; exact hrows)
  -- and the old log is dropped
  obtain ⟨w₅, hw₅⟩ : ∃ w₅ : Warehouse, w₅ = { w₄ with tables := w₄.tables.erase scratchTable } :=
    ⟨_, rfl⟩
  have hrun₅ : w₄.run (.drop scratchTable) = some w₅ := by rw [hw₅, run_drop_eq hdatabase₄]
  have hlive₅ : w₅.tables.lookup transitionsTable = some copy := by
    rw [hw₅]
    exact (AList.lookup_erase_ne hne).trans hlive₄
  have hsound₅ : Sound checksum 4 inserted w₅ := by
    apply h.sound.swap (by rw [hw₅]; exact hdatabase₄) _ hlive₅ (Or.inr hcopied.1)
      (by rw [hcopied.2]; exact hrows)
    intro other hnl hns
    rw [hw₅]
    exact (AList.lookup_erase_ne hns).trans (hother₄ other hnl hns)
  refine Stage.andThen (M := fun _ w' => w' = w₁) (Stage.statement hrun₁ (hkept hsound₁) rfl) ?_
  rintro ⟨⟩ w' hw
  rw [hw]
  refine Stage.andThen (M := fun _ w' => w' = w₂) (Stage.statement hrun₂ (hkept hsound₂) rfl) ?_
  rintro ⟨⟩ w' hw
  rw [hw]
  refine Stage.andThen (M := fun _ w' => w' = w₃) (Stage.statement hrun₃ (hkept hsound₃) rfl) ?_
  rintro ⟨⟩ w' hw
  rw [hw]
  refine Stage.andThen (M := fun _ w' => w' = w₄) (Stage.statement hrun₄ (hkept hsound₄) rfl) ?_
  rintro ⟨⟩ w' hw
  rw [hw]
  refine Stage.andThen (M := fun _ w' => w' = w₅) (Stage.statement hrun₅ (hkept hsound₅) rfl) ?_
  rintro ⟨⟩ w' hw
  rw [hw]
  refine ⟨hsound₅, by rw [hw₅]; exact hdatabase₄, ?_, ?_⟩
  · rw [hw₅]
    exact AList.lookup_erase scratchTable w₄.tables
  · unfold Warehouse.definition
    rw [hlive₅, Option.map_some, hcopied.1]

/-! ### The ledger row -/

/-- Rewriting the rows of a table keeps every definition. -/
theorem lookup_rewrite {name : String} {table table' : StoredTable}
    (hlookup : w.tables.lookup name = some table) (hdef : table'.definition = table.definition)
    (other : String) : (w.setTable name table').definition other = w.definition other := by
  unfold Warehouse.definition
  rw [lookup_setTable]
  by_cases hother : other = name
  · rw [if_pos hother, hother, hlookup, Option.map_some, Option.map_some, hdef]
  · rw [if_neg hother]

theorem isSome_definition (name : String) :
    (w.definition name).isSome = (w.tables.lookup name).isSome := Option.isSome_map

/-- New rows of a table leave done what is done. -/
theorem Done.rewrite {name : String} {table table' : StoredTable} (h : Done k w)
    (hlookup : w.tables.lookup name = some table) (hdef : table'.definition = table.definition) :
    Done k (w.setTable name table') := by
  refine ⟨fun other hother => ?_, fun hk => ?_⟩
  · rw [← isSome_definition, lookup_rewrite hlookup hdef, isSome_definition]
    exact h.created other hother
  · obtain ⟨hscratch, hlive⟩ := h.deduped hk
    refine ⟨?_, (lookup_rewrite hlookup hdef _).trans hlive⟩
    rw [lookup_setTable, if_neg]
    · exact hscratch
    · intro hname
      rw [hname, hlookup] at hscratch
      cases hscratch

/-- New rows of a table other than the log. -/
theorem SoundTables.rewrite {name : String} {table table' : StoredTable}
    (h : SoundTables inserted w) (hlookup : w.tables.lookup name = some table)
    (hdef : table'.definition = table.definition) (hname : name ≠ transitionsTable) :
    SoundTables inserted (w.setTable name table') := by
  refine ⟨fun _ _ _ => h.database name table hlookup, ?_, ?_, ?_⟩
  · intro other found hfound hne hscratch
    rw [lookup_setTable] at hfound
    split at hfound
    · rename_i hsame
      obtain rfl := Option.some.inj hfound
      rw [hdef]
      exact h.defined other table (hsame ▸ hlookup) hne hscratch
    · exact h.defined other found hfound hne hscratch
  · intro found hfound
    rw [lookup_setTable, if_neg (Ne.symm hname)] at hfound
    exact h.live found hfound
  · intro hnone
    rw [lookup_setTable, if_neg (Ne.symm hname)] at hnone
    exact h.unlogged hnone

/-- Recording the next migration extends the recorded prefix by one. -/
theorem Recorded.record {rows : List MigrationRow} {row : MigrationRow}
    {migration : StorageMigration} (h : Recorded checksum k rows)
    (hmigration : (clickhouseMigrations checksum)[k]? = some migration)
    (hversion : row.version = migration.version) (hname : row.name = migration.name)
    (hchecksum : row.checksum = migration.checksum) : Recorded checksum (k + 1) (rows ++ [row]) := by
  rw [packaged_version hmigration] at hversion
  constructor
  · intro version
    have hold := h.versions version
    constructor
    · rintro ⟨r, hr, hrv⟩
      rcases List.mem_append.mp hr with hr | hr
      · have := hold.mp ⟨r, hr, hrv⟩
        omega
      · rw [List.mem_singleton.mp hr] at hrv
        omega
    · intro hbetween
      by_cases hnew : version = k + 1
      · exact ⟨row, by simp, hversion.trans hnew.symm⟩
      · obtain ⟨r, hr, hrv⟩ := hold.mpr ⟨hbetween.1, by omega⟩
        exact ⟨r, List.mem_append_left _ hr, hrv⟩
  · intro r hr
    rcases List.mem_append.mp hr with hr | hr
    · exact h.identity r hr
    · rw [List.mem_singleton.mp hr, hversion, Nat.add_sub_cancel]
      exact ⟨migration, hmigration, hname, hchecksum⟩

/-- A migration whose statements are done is recorded. -/
theorem Sound.record {row : MigrationRow} {migration : StorageMigration} {table : StoredTable}
    (h : Sound checksum k inserted w)
    (hmigration : (clickhouseMigrations checksum)[k]? = some migration)
    (hversion : row.version = migration.version) (hname : row.name = migration.name)
    (hchecksum : row.checksum = migration.checksum)
    (htable : w.tables.lookup ledgerTable = some table) (hdone : Done (k + 1) w) :
    Sound checksum (k + 1) inserted
      (w.setTable ledgerTable { table with rows := table.rows ++ [.migration row] }) := by
  have hold : w.ledger = some (table.rows.filterMap Row.migration?) := by
    unfold Warehouse.ledger
    rw [htable]
    rfl
  have hnew : (w.setTable ledgerTable
      { table with rows := table.rows ++ [.migration row] }).ledger =
        some (table.rows.filterMap Row.migration? ++ [row]) := by
    unfold Warehouse.ledger
    rw [lookup_setTable, if_pos rfl, Option.map_some, List.filterMap_append]
    rfl
  obtain ⟨hbound, -⟩ := List.getElem?_eq_some_iff.mp hmigration
  rw [length_packaged] at hbound
  refine ⟨hbound, h.tables.rewrite htable rfl (by decide), hdone.rewrite htable rfl, ?_, ?_⟩
  · intro rows hrows
    rw [hnew] at hrows
    obtain rfl := Option.some.inj hrows
    exact (h.ledger _ hold).record hmigration hversion hname hchecksum
  · intro hnone
    rw [hnew] at hnone
    cases hnone

/-! ### One migration -/

/-- The packaged migrations but `0005` create what they are meant to. -/
theorem packaged_creates {migration : StorageMigration}
    (h : (clickhouseMigrations checksum)[k]? = some migration) (hk : k ≠ 4) :
    (∀ statement ∈ migration.statements, Creates statement) ∧
      createdBy (k + 1) = createdBy k ++ migration.statements.filterMap Statement.created? := by
  have hview : Creates (.create "records_current" recordsCurrentDefinition) ∧
      Creates (.create "feedback_current" feedbackCurrentDefinition) :=
    ⟨Or.inl ⟨rfl, by decide, by decide⟩, Or.inl ⟨rfl, by decide, by decide⟩⟩
  obtain ⟨hlt, rfl⟩ := List.getElem?_eq_some_iff.mp h
  rw [length_packaged] at hlt
  match k, hlt with
  | 0, _ =>
      refine ⟨fun statement hs => ?_, rfl⟩
      rw [List.mem_singleton.mp hs]
      exact Or.inl ⟨rfl, by decide, by decide⟩
  | 1, _ =>
      refine ⟨fun statement hs => ?_, rfl⟩
      rw [List.mem_singleton.mp hs]
      exact Or.inl ⟨rfl, by decide, by decide⟩
  | 2, _ =>
      refine ⟨fun statement hs => ?_, rfl⟩
      rcases List.mem_cons.mp hs with rfl | hs
      · exact Or.inl ⟨rfl, by decide, by decide⟩
      · rw [List.mem_singleton.mp hs]
        exact Or.inr ⟨rfl, rfl⟩
  | 3, _ =>
      refine ⟨fun statement hs => ?_, rfl⟩
      rcases List.mem_cons.mp hs with rfl | hs
      · exact hview.1
      · rw [List.mem_singleton.mp hs]
        exact hview.2
  | 4, _ => exact absurd rfl hk
  | 5, _ =>
      refine ⟨fun statement hs => ?_, rfl⟩
      rw [List.mem_singleton.mp hs]
      exact Or.inl ⟨rfl, by decide, by decide⟩

/-- The statements of the next migration, cut or not, keep the invariant and end with it done. -/
theorem stage_statements {migration : StorageMigration} (h : Underway checksum k inserted [] w)
    (hmigration : (clickhouseMigrations checksum)[k]? = some migration) :
    Stage checksum faults inserted (commands migration.statements)
      (fun _ w' => Sound checksum k inserted w' ∧ w'.database = true ∧ Done (k + 1) w') w := by
  by_cases hk : k = 4
  · subst hk
    obtain rfl : migration =
        ⟨5, "feedback_transition_dedup".toList, checksum 5, dedupStatements⟩ :=
      (Option.some.inj hmigration).symm
    refine Stage.mono (stage_dedup h) ?_
    rintro _ w' ⟨hsound, hdatabase, hscratch, hlive⟩
    refine ⟨hsound, hdatabase, fun name hname => hsound.done.created name ?_,
      fun _ => ⟨hscratch, hlive⟩⟩
    have hsame : createdBy 5 = createdBy 4 := rfl
    exact hsame ▸ hname
  · obtain ⟨hcreates, hcreated⟩ := packaged_creates hmigration hk
    refine Stage.mono (stage_creates hcreates h) ?_
    intro _ w' hunderway
    refine ⟨hunderway.sound, hunderway.database, fun name hname => ?_,
      fun hbound => hunderway.sound.done.deduped (by omega)⟩
    rw [hcreated] at hname
    rcases List.mem_append.mp hname with hold | hnew
    · exact hunderway.sound.done.created name hold
    · exact hunderway.there name hnew

/-- The first migration creates the ledger table. -/
theorem ledger_created (hdone : Done (k + 1) w) :
    ∃ table, w.tables.lookup ledgerTable = some table := by
  apply Option.isSome_iff_exists.mp
  apply hdone.created
  exact List.mem_flatten.mpr ⟨[ledgerTable], List.mem_cons_self .., List.mem_singleton.mpr rfl⟩

/-- Applying the next migration records it after its statements. -/
theorem stage_applyMigration {migration : StorageMigration} {stamp : Stamp} {version : List Char}
    (h : Underway checksum k inserted [] w)
    (hmigration : (clickhouseMigrations checksum)[k]? = some migration) :
    Stage checksum faults inserted (applyMigration migration stamp version)
      (fun _ w' => Underway checksum (k + 1) inserted [] w') w := by
  refine Stage.andThen (stage_statements h hmigration) ?_
  rintro _ w₁ ⟨hsound, hdatabase, hdone⟩
  obtain ⟨table, htable⟩ := ledger_created hdone
  obtain ⟨row, hrow⟩ : ∃ row : MigrationRow,
      row = ⟨migration.version, migration.name, migration.checksum, stamp, version⟩ := ⟨_, rfl⟩
  have hrecorded := @Sound.record _ _ _ _ row _ _ hsound hmigration (by rw [hrow]) (by rw [hrow])
    (by rw [hrow]) htable hdone
  have hanswer : w₁.answer (.insertLedger row) = (true,
      w₁.setTable ledgerTable { table with rows := table.rows ++ [.migration row] }) := by
    show changed w₁ ((w₁.tables.lookup ledgerTable).map _) = _
    rw [htable]
    rfl
  rw [← hrow]
  apply Stage.op
  · intro _
    rw [hanswer]
    exact ⟨k + 1, hrecorded⟩
  · rw [hanswer]
    exact ⟨hrecorded, hdatabase, nofun⟩
  · exact fun _ hfaults => hfaults

/-! ### The whole call -/

/-- The loop skips what is recorded and applies the rest in order. -/
theorem stage_applyPending {applied : Table Nat MigrationRow} {recorded : Nat} {stamp : Stamp}
    {version : List Char}
    (hlookup : ∀ v, (applied.lookup v).isSome ↔ 1 ≤ v ∧ v ≤ recorded)
    {rest : List StorageMigration} {index : Nat} {result : MigrateResult}
    (hrest : rest = (clickhouseMigrations checksum).drop index)
    (h : Underway checksum (max index recorded) inserted [] w) :
    Stage checksum faults inserted (applyPending applied stamp version rest result)
      (fun _ w' => Sound checksum 6 inserted w') w := by
  -- The induction is on the migrations from `index` on; those before it are applied or recorded.
  induction rest generalizing index result w with
  | nil =>
      have hend : 6 ≤ index := by
        rw [← @length_packaged checksum]
        exact List.drop_eq_nil_iff.mp hrest.symm
      have hbound := h.sound.bound
      rw [show max index recorded = 6 by omega] at h
      exact h.sound
  | cons migration rest ih =>
      have hlt : index < (clickhouseMigrations checksum).length := by
        apply Nat.lt_of_not_le
        intro hge
        rw [List.drop_eq_nil_of_le hge] at hrest
        cases hrest
      rw [List.drop_eq_getElem_cons hlt] at hrest
      obtain ⟨hmigration, hrest⟩ := List.cons.inj hrest
      have hget : (clickhouseMigrations checksum)[index]? = some migration := by
        rw [hmigration]
        exact List.getElem?_eq_getElem hlt
      unfold applyPending
      rw [packaged_version hget]
      -- A recorded version is skipped.
      by_cases hskip : index + 1 ≤ recorded
      · rw [if_pos ((hlookup _).mpr ⟨by omega, hskip⟩)]
        apply ih hrest
        rw [show max (index + 1) recorded = max index recorded by omega]
        exact h
      · rw [if_neg (fun hthere => hskip ((hlookup _).mp hthere).2)]
        rw [show max index recorded = index by omega] at h
        refine Stage.andThen (stage_applyMigration h hget) ?_
        intro _ w' hnext
        apply ih hrest
        rw [show max (index + 1) recorded = index + 1 by omega]
        exact hnext

/-- What `_load_ledger` returns. -/
structure Loaded (checksum : Nat → List Char) (k : Nat) (applied : Table Nat MigrationRow) :
    Prop where
  lookup : ∀ version, (applied.lookup version).isSome ↔ 1 ≤ version ∧ version ≤ k
  identity : ∀ version row, applied.lookup version = some row → ∃ migration,
    (clickhouseMigrations checksum)[version - 1]? = some migration ∧
      row.name = migration.name ∧ row.checksum = migration.checksum

theorem Recorded.loaded {rows : List MigrationRow} (h : Recorded checksum k rows) :
    Loaded checksum k (finalLedger rows) := by
  refine ⟨h.lookup, fun version row hrow => ?_⟩
  obtain ⟨hmem, rfl⟩ := (finalLedger_spec rows).1 version row hrow
  exact h.identity row hmem

theorem stage_loadLedger (h : Underway checksum k inserted [] w) :
    Stage checksum faults inserted loadLedger
      (fun applied w' => w' = w ∧ Loaded checksum k applied) w := by
  unfold loadLedger
  refine Stage.op id ?_ fun _ hfaults => hfaults
  show Stage checksum faults inserted (match some w.database with
    | none => _
    | some false => _
    | some true => _) _ w
  rw [h.database]
  have hledger : (w.tables.lookup ledgerTable).isSome = w.ledger.isSome := Option.isSome_map.symm
  refine Stage.op id ?_ fun _ hfaults => hfaults
  show Stage checksum faults inserted (match some (w.tables.lookup ledgerTable).isSome with
    | none => _
    | some false => _
    | some true => _) _ w
  rw [hledger]
  cases hrows : w.ledger with
  | none =>
      refine ⟨rfl, fun version => ⟨nofun, ?_⟩, nofun⟩
      rw [h.sound.unrecorded hrows]
      omega
  | some rows =>
      refine Stage.op id ?_ fun _ hfaults => hfaults
      show Stage checksum faults inserted (match w.ledger with
        | none => _
        | some rows => _) _ w
      rw [hrows]
      exact ⟨rfl, (h.sound.ledger rows hrows).loaded⟩

/-- **Every call of `migrate` keeps the destination sound at every point**, and returns with every
migration applied. -/
theorem stage_migrate {database version : List Char} {now : Option Instant}
    (hvalid : faults = true ∨ now.isSome) (hdatabase : Ownership.isIdentifier database = true)
    (h : Sound checksum k inserted w) :
    Stage checksum faults inserted (migrate (clickhouseMigrations checksum) database now version)
      (fun _ w' => Sound checksum 6 inserted w') w := by
  unfold migrate
  rw [if_neg (by rw [hdatabase]; decide)]
  cases now with
  | none => exact hvalid.resolve_right nofun
  | some instant =>
      refine Stage.andThen (M := fun _ w' => Underway checksum k inserted [] w') ?_ ?_
      · have hcreated : Sound checksum k inserted { w with database := true } :=
          h.congr ⟨fun _ _ _ => rfl, h.tables.defined, h.tables.live, h.tables.unlogged⟩
            ⟨h.done.created, h.done.deduped⟩ (Or.inl rfl)
        exact Stage.op (fun _ => ⟨k, hcreated⟩) ⟨hcreated, rfl, nofun⟩ fun _ hfaults => hfaults
      · intro _ w₁ hunderway
        refine Stage.andThen (stage_loadLedger hunderway) ?_
        rintro applied w₂ ⟨hw, hloaded⟩
        rw [hw, Recorded.accepted hunderway.sound.bound hloaded.lookup hloaded.identity]
        apply @stage_applyPending _ _ _ _ _ _ _ _ hloaded.lookup _ 0 _ rfl
        rw [Nat.zero_max]
        exact hunderway

end Stage

end Milhouse.ClickHouse
