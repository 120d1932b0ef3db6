import Milhouse.Lib.Fallible
import Milhouse.Lib.Transition
import Milhouse.Lib.Versions
import Milhouse.State.Migrations

/-!
# Milhouse — runs of the control-plane migrations

The history of a control plane is the list of its ledger rows, oldest first. `MigratedBy` says that a
database is what the recorded migrations make of an empty one; every call the runner makes either
leaves the history as it is or adds the row of the next migration, so a runner that is cut anywhere
leaves a migrated database.

* **`validate_eq_ok_iff`** — which ledgers a list of definitions accepts;
* **`follows_migrate`** — `migrate` adds rows to the history, whatever fails and wherever it is cut;
* `evaluate_migrate` — what `migrate` does where nothing fails;
* `play_migrate` — SQLite runs `migrate` as `dbHandler` does where every statement keeps to the
  tables other than the ledger.
-/

namespace Milhouse.ControlPlane

open Interaction Transition

variable {rt : ControlRuntime} {migrations definitions : List Migration}

/-! ## What the recorded migrations make -/

/-- The statements of one migration. -/
def runStatements (rt : ControlRuntime) (statements : List (List Char)) (tables : rt.Tables) :
    Option rt.Tables :=
  statements.foldlM (fun tables text => rt.execute text tables) tables

/-- Applying migrations, in order. -/
def applied (rt : ControlRuntime) (migrations : List Migration) (tables : rt.Tables) :
    Option rt.Tables :=
  migrations.foldlM (fun tables migration => runStatements rt migration.statements tables) tables

/-- What a ledger row says of its migration. -/
def LedgerRow.identity (row : LedgerRow) : List Char × List Char := (row.name, row.checksum)

def Migration.identity (rt : ControlRuntime) (migration : Migration) : List Char × List Char :=
  (migration.name, migration.checksum rt)

/-- The row of a version. -/
def rowAt (rows : List LedgerRow) : Nat → Option LedgerRow
  | 0 => none
  | version + 1 => rows[version]?

/-- The database is what the recorded migrations, a prefix of the list, make of an empty one. -/
structure MigratedBy (rt : ControlRuntime) (migrations : List Migration) (rows : List LedgerRow)
    (db : ControlDb rt) : Prop where
  recorded : rows.map LedgerRow.identity = (migrations.take rows.length).map (Migration.identity rt)
  ledger : ∀ version, (db.ledger.getD ∅).lookup version = rowAt rows version
  tables : applied rt (migrations.take rows.length) rt.empty = some db.tables

/-- A migrated database has at most as many rows as there are migrations. -/
theorem MigratedBy.length_le {rows : List LedgerRow} {db : ControlDb rt}
    (h : MigratedBy rt migrations rows db) : rows.length ≤ migrations.length := by
  have hlength := congrArg List.length h.recorded
  rw [List.length_map, List.length_map, List.length_take] at hlength
  omega

/-- Nothing is recorded in a database nothing was applied to. -/
theorem migratedBy_fresh : MigratedBy rt migrations [] (ControlDb.fresh rt) where
  recorded := rfl
  ledger := by
    intro version
    cases version <;> rfl
  tables := rfl

/-- The ledger is created. -/
theorem MigratedBy.createLedger {rows : List LedgerRow} {db : ControlDb rt}
    (h : MigratedBy rt migrations rows db) :
    MigratedBy rt migrations rows { db with ledger := some (db.ledger.getD ∅) } :=
  ⟨h.recorded, h.ledger, h.tables⟩

/-- The ledger has a row for exactly the versions from one to its length. -/
theorem rowAt_isSome {rows : List LedgerRow} {version : Nat} :
    (rowAt rows version).isSome ↔ 1 ≤ version ∧ version ≤ rows.length := by
  cases version with
  | zero => simp [rowAt]
  | succ n =>
      rw [rowAt, isSome_getElem?]
      omega

/-- Two lists of migrations one after the other are applied as their concatenation. -/
theorem applied_append (first second : List Migration) (tables : rt.Tables) :
    applied rt (first ++ second) tables = (applied rt first tables).bind (applied rt second) :=
  List.foldlM_append

theorem applied_singleton (migration : Migration) (tables : rt.Tables) :
    applied rt [migration] tables = runStatements rt migration.statements tables := by
  show (runStatements rt migration.statements tables >>= some) = _
  exact bind_pure _

/-- The next migration is applied and recorded. -/
theorem MigratedBy.record {rows : List LedgerRow} {db : ControlDb rt} {table : Table Nat LedgerRow}
    {migration : Migration} {tables : rt.Tables} {stamp : Stamp}
    (h : MigratedBy rt migrations rows db) (hledger : db.ledger = some table)
    (hnext : migrations[rows.length]? = some migration)
    (hrun : runStatements rt migration.statements db.tables = some tables) :
    MigratedBy rt migrations (rows ++ [⟨migration.name, migration.checksum rt, stamp⟩])
      ⟨tables, some (table.insert (rows.length + 1)
        ⟨migration.name, migration.checksum rt, stamp⟩)⟩ := by
  obtain ⟨hlt, hget⟩ := List.getElem?_eq_some_iff.mp hnext
  have htake : migrations.take (rows.length + 1) = migrations.take rows.length ++ [migration] := by
    rw [List.take_succ_eq_append_getElem hlt, hget]
  refine ⟨?_, ?_, ?_⟩
  · rw [List.length_append, List.length_singleton, htake, List.map_append, List.map_append,
      h.recorded]
    rfl
  · intro version
    have hold := h.ledger version
    rw [hledger] at hold
    show (table.insert _ _).lookup version = _
    by_cases hversion : version = rows.length + 1
    · rw [hversion, AList.lookup_insert, rowAt, List.getElem?_append_right (Nat.le_refl _),
        Nat.sub_self]
      rfl
    · rw [AList.lookup_insert_ne hversion]
      show table.lookup version = _
      rw [show table.lookup version = rowAt rows version from hold]
      cases version with
      | zero => rfl
      | succ n =>
          rw [rowAt, rowAt, List.getElem?_append]
          split
          · rfl
          · have hn : rows.length < n := by omega
            rw [List.getElem?_eq_none (Nat.le_of_lt hn), List.getElem?_eq_none]
            rw [List.length_singleton]
            omega
  · rw [List.length_append, List.length_singleton, htake, applied_append, h.tables]
    show applied rt [migration] db.tables = _
    rw [applied_singleton, hrun]

/-! ## Statements that keep to the other tables -/

/-- No statement of the migrations reaches into the ledger or ends the transaction. -/
def Plain (dialect : Dialect rt) (migrations : List Migration) : Prop :=
  ∀ migration ∈ migrations, ∀ text ∈ migration.statements, dialect text = none

/-- A call that SQLite answers as `dbHandler` does. -/
def PlainCall (dialect : Dialect rt) : DbOp → Prop
  | .write (.execute text) => dialect text = none
  | _ => True

section Plain

variable {dialect : Dialect rt} {α β : Type}

/-- A plain call answers in the dialect as it does without one. -/
theorem answerIn_plain {s : DbSession rt} {o : DbOp} (h : PlainCall dialect o) :
    s.answerIn dialect o = s.answer o := by
  cases o with
  | write statement =>
      cases statement with
      | execute text =>
          have hnone : dialect text = none := h
          unfold DbSession.answerIn
          dsimp only
          rw [hnone]
      | createLedger | insert => rfl
  | barrier | begin | select | commit | rollback => rfl

/-- A plain call does under the real dialect what it does where no statement is read as a command.
-/
theorem perform_plain {s : DbSession rt} {o : DbOp} (h : PlainCall dialect o) (c : DbFault) :
    (sqliteHandler rt dialect).perform s o c = (dbHandler rt).perform s o c := by
  have hok := @answerIn_plain rt dialect s o h
  cases c with
  | ok => cases o <;> first | rfl | exact congrArg some hok
  | fail | abort => cases o <;> rfl

/-- Normalizing the errors of a program adds no call to it. -/
theorem normalize_plain {message : String} {p : DbProg α} (h : p.Only (PlainCall dialect)) :
    (DbProg.normalize message p).Only (PlainCall dialect) := by
  refine Prog.Only.bind h fun r => ?_
  rcases r with (error | _) | a
  · trivial
  · trivial
  · trivial

/-- `BEGIN`, `COMMIT` and `ROLLBACK` of the runner itself are plain calls. -/
theorem transaction_plain {body : DbProg α} (h : body.Only (PlainCall dialect)) :
    (DbProg.transaction body).Only (PlainCall dialect) := by
  refine ⟨trivial, fun (began : Bool) => ?_⟩
  cases began with
  | false => trivial
  | true =>
      refine Prog.Only.bind h fun r => ?_
      cases r with
      | error raised => exact ⟨trivial, fun _ => trivial⟩
      | ok value =>
          refine ⟨trivial, fun (committed : Bool) => ?_⟩
          cases committed with
          | false => exact ⟨trivial, fun _ => trivial⟩
          | true => trivial

theorem execute_plain {statement : DbWrite} (h : PlainCall dialect (.write statement)) :
    (DbProg.execute statement).Only (PlainCall dialect) := by
  refine ⟨h, fun (executed : Bool) => ?_⟩
  cases executed with
  | false => trivial
  | true => trivial

/-- A list of texts that the dialect gives no command to is executed by plain calls. -/
theorem executeAll_plain {statements : List (List Char)}
    (h : ∀ text ∈ statements, dialect text = none) :
    (executeAll statements).Only (PlainCall dialect) := by
  induction statements with
  | nil => trivial
  | cons text rest ih =>
      have hplain : PlainCall dialect (.write (.execute text)) := h text (List.mem_cons_self ..)
      refine Prog.Only.andThen (execute_plain hplain) fun _ => ?_
      exact ih fun text htext => h text (List.mem_cons_of_mem _ htext)

/-- Applying migrations without commands makes plain calls only. -/
theorem applyPending_plain {stamp : Stamp} {highest : Nat} (h : Plain dialect migrations) :
    (applyPending rt stamp migrations highest).Only (PlainCall dialect) := by
  induction migrations generalizing highest with
  | nil => trivial
  | cons migration rest ih =>
      have hrest : Plain dialect rest := fun m hm => h m (List.mem_cons_of_mem _ hm)
      unfold applyPending
      split
      · exact ih hrest
      · refine Prog.Only.andThen ?_ fun _ => ih hrest
        refine normalize_plain (transaction_plain (Prog.Only.andThen ?_ fun _ => ?_))
        · exact executeAll_plain (h migration (List.mem_cons_self ..))
        · exact execute_plain trivial

/-- The statements are all that `migrate` brings of its own. -/
theorem migrate_plain {appliedAt : Option Instant} (h : Plain dialect migrations) :
    (migrate rt migrations appliedAt).Only (PlainCall dialect) := by
  unfold migrate
  cases validateDefinitions migrations with
  | error e => trivial
  | ok _ =>
      cases migrationStamp appliedAt with
      | error e => trivial
      | ok stamp =>
          refine ⟨trivial, fun (held : Bool) => ?_⟩
          cases held with
          | false => trivial
          | true =>
              refine normalize_plain (Prog.Only.andThen ?_ fun _ => Prog.Only.andThen ?_ fun read =>
                Prog.Only.andThen ?_ fun _ => applyPending_plain h)
              · exact transaction_plain (execute_plain trivial)
              · refine ⟨trivial, fun read => ?_⟩
                cases read with
                | none => trivial
                | some rows => trivial
              · cases validateAppliedPrefix rt read migrations with
                | error e => trivial
                | ok _ => trivial

/-- **SQLite runs plain migrations as `dbHandler` does.** -/
theorem play_migrate {appliedAt : Option Instant} (h : Plain dialect migrations)
    (s : DbSession rt) (tape : List DbFault) :
    (migrate rt migrations appliedAt).play (sqliteHandler rt dialect) s tape =
      (migrate rt migrations appliedAt).play (dbHandler rt) s tape :=
  Prog.Only.play_eq (migrate_plain h) (fun _ _ c ho => perform_plain ho c) s tape

end Plain

/-! ## The definitions -/

/-- A definition is accepted under its own position and with a statement at least. -/
theorem validateDefinition_eq_ok {index : Nat} {migration : Migration}
    (h : validateDefinition index migration = .ok ()) :
    migration.version = index + 1 ∧ migration.statements ≠ [] := by
  unfold validateDefinition at h
  split at h
  · cases h
  · rename_i hversion
    split at h
    · cases h
    · split at h
      · cases h
      · rename_i hstatements
        exact ⟨Decidable.not_not.mp hversion, hstatements⟩

/-- Accepted definitions are numbered without gaps from the index they start at. -/
theorem validateFrom_eq_ok {index : Nat} (h : validateFrom index migrations = .ok ()) :
    ∀ i (hi : i < migrations.length), migrations[i].version = index + i + 1 ∧
      migrations[i].statements ≠ [] := by
  induction migrations generalizing index with
  | nil => exact fun i hi => absurd hi (Nat.not_lt_zero i)
  | cons migration rest ih =>
      obtain ⟨⟨⟩, hfirst, hrest⟩ := Except.bind_eq_ok_iff.mp h
      intro i hi
      cases i with
      | zero => exact validateDefinition_eq_ok hfirst
      | succ j =>
          have hj := ih hrest j (Nat.lt_of_succ_lt_succ hi)
          rw [List.getElem_cons_succ]
          exact ⟨by omega, hj.2⟩

/-- The versions of a valid list count from one. -/
theorem version_of_valid (h : validateDefinitions migrations = .ok ()) {index : Nat}
    {migration : Migration} (hget : migrations[index]? = some migration) :
    migration.version = index + 1 := by
  obtain ⟨hlt, rfl⟩ := List.getElem?_eq_some_iff.mp hget
  have hversion := (validateFrom_eq_ok h index hlt).1
  omega

theorem statements_of_valid (h : validateDefinitions migrations = .ok ()) {index : Nat}
    {migration : Migration} (hget : migrations[index]? = some migration) :
    migration.statements ≠ [] := by
  obtain ⟨hlt, rfl⟩ := List.getElem?_eq_some_iff.mp hget
  exact (validateFrom_eq_ok h index hlt).2

/-! ## The prefix check -/

/-- What the ledger reads as. -/
structure Reads (rows : List LedgerRow) (read : Applied) : Prop where
  lookup : ∀ version, read.lookup version = (rowAt rows version).map LedgerRow.identity

/-- What was read of a migrated ledger has the versions from one to the number of rows. -/
theorem Reads.versions {rows : List LedgerRow} {read : Applied} (h : Reads rows read) :
    read.versions = List.range' 1 rows.length := by
  apply Versions.sorted_keys
  intro version
  rw [h.lookup, Option.isSome_map, rowAt_isSome]

/-- No applied definition was modified exactly if the rows carry the identities of the definitions.
-/
theorem Reads.any_eq_false {rows : List LedgerRow} {read : Applied} (h : Reads rows read)
    (hvalid : validateDefinitions definitions = .ok ()) (hlength : rows.length ≤ definitions.length) :
    ((definitions.take rows.length).any fun migration =>
        read.lookup migration.version ≠ some (migration.identity rt)) = false ↔
      rows.map LedgerRow.identity = (definitions.take rows.length).map (Migration.identity rt) := by
  have hat : ∀ index (hindex : index < rows.length),
      read.lookup definitions[index].version = some rows[index].identity := by
    intro index hindex
    have hget : definitions[index]? = some definitions[index] :=
      List.getElem?_eq_getElem (Nat.lt_of_lt_of_le hindex hlength)
    rw [h.lookup, version_of_valid hvalid hget, rowAt, List.getElem?_eq_getElem hindex]
    rfl
  rw [List.any_eq_false]
  constructor
  · intro hall
    apply List.ext_getElem
    · rw [List.length_map, List.length_map, List.length_take, Nat.min_eq_left hlength]
    · intro index hleft hright
      have hindex : index < rows.length := by simpa using hleft
      have hdefinition : index < definitions.length := Nat.lt_of_lt_of_le hindex hlength
      have hmem : definitions[index] ∈ definitions.take rows.length :=
        List.mem_take_iff_getElem.mpr ⟨index, by omega, rfl⟩
      have hsame := hall _ hmem
      rw [hat index hindex] at hsame
      rw [List.getElem_map, List.getElem_map, List.getElem_take]
      simpa using hsame
  · intro hsame migration hmem
    obtain ⟨index, hindex, rfl⟩ := List.mem_take_iff_getElem.mp hmem
    have hrow : index < rows.length := by omega
    have hidentity : rows[index].identity = definitions[index].identity rt := by
      have hget := congrArg (fun l => l[index]?) hsame
      simpa [hrow, List.getElem?_take_of_lt hrow, List.getElem?_eq_getElem (show index < definitions.length by omega)] using hget
    rw [hat index hrow, hidentity]
    simp

/-- **A ledger is accepted where it records the identities of a prefix of the definitions.** -/
theorem validate_eq_ok_iff {rows : List LedgerRow} {read : Applied} (h : Reads rows read)
    (hvalid : validateDefinitions definitions = .ok ()) :
    validateAppliedPrefix rt read definitions = .ok () ↔
      rows.map LedgerRow.identity = (definitions.take rows.length).map (Migration.identity rt) := by
  unfold validateAppliedPrefix
  simp only [h.versions, Versions.getLastD_range', List.length_range']
  by_cases hempty : List.range' 1 rows.length = []
  · rw [if_pos hempty]
    have hrows : rows = [] := by simpa using hempty
    rw [hrows]
    exact ⟨fun _ => rfl, fun _ => rfl⟩
  · rw [if_neg hempty, if_neg (by simp)]
    by_cases hlength : definitions.length < rows.length
    · rw [if_pos hlength]
      refine ⟨nofun, fun hsame => ?_⟩
      have := congrArg List.length hsame
      rw [List.length_map, List.length_map, List.length_take] at this
      omega
    · rw [if_neg hlength, ← h.any_eq_false hvalid (Nat.le_of_not_lt hlength)]
      unfold Migration.identity
      split
      · rename_i hany
        rw [hany]
        exact ⟨nofun, nofun⟩
      · rename_i hany
        exact ⟨fun _ => Bool.eq_false_iff.mpr hany, fun _ => rfl⟩

/-- A ledger that is refused is refused with the fixed code. -/
theorem validate_eq_error {read : Applied} {error : StateError}
    (h : validateAppliedPrefix rt read definitions = .error error) :
    error.code = "MH_STATE_MIGRATION" := by
  unfold validateAppliedPrefix at h
  simp only at h
  split at h
  · cases h
  · split at h
    · cases h
      rfl
    · split at h
      · cases h
        rfl
      · split at h
        · cases h
          rfl
        · cases h

/-! ## Every call, whatever fails -/

/-- The history grows by one row at most. -/
def RowStep (rows rows' : List LedgerRow) : Prop := rows' = rows ∨ ∃ row, rows' = rows ++ [row]

/-- The program follows the history: every call is matched by a step of it, and the committed
database is at every point what the history says. -/
def Follows {α : Type} (rt : ControlRuntime) (migrations : List Migration) (p : DbProg α)
    (Q : Except DbRaised α → List LedgerRow → DbSession rt → Prop) (rows : List LedgerRow)
    (s : DbSession rt) : Prop :=
  p.Tracks (dbHandler rt) RowStep (fun rows s => MigratedBy rt migrations rows s.committed) Q rows s

section Follows

variable {α β : Type} {rows : List LedgerRow} {s s' : DbSession rt}

/-- What a failed call can change: SQLite has ended the transaction. -/
def Failed (s s' : DbSession rt) : Prop :=
  s'.committed = s.committed ∧ (s.working = none → s'.working = none)

/-- A call is answered, or it fails and what is committed stays. -/
theorem perform_cases {o : DbOp} {c : DbFault} {r : o.Resp}
    (h : (dbHandler rt).perform s o c = some (r, s')) :
    (r, s') = s.answer o ∨ (r = o.failure ∧ Failed s s') := by
  cases c with
  | ok =>
      refine Or.inl ?_
      cases o <;> exact (Option.some.inj h).symm
  | fail =>
      cases o with
      | rollback => exact Or.inl (Option.some.inj h).symm
      | _ =>
          cases h
          exact Or.inr ⟨rfl, rfl, id⟩
  | abort =>
      cases o with
      | rollback => exact Or.inl (Option.some.inj h).symm
      | _ =>
          cases h
          exact Or.inr ⟨rfl, rfl, fun _ => rfl⟩

/-- A call that does not commit is followed by staying where the history is. -/
theorem follows_op {o : DbOp} {k : o.Resp → DbProg α}
    {Q : Except DbRaised α → List LedgerRow → DbSession rt → Prop}
    (hrel : MigratedBy rt migrations rows s.committed)
    (hquiet : (s.answer o).2.committed = s.committed)
    (hok : Follows rt migrations (k (s.answer o).1) Q rows (s.answer o).2)
    (hfail : ∀ s', Failed s s' → Follows rt migrations (k o.failure) Q rows s') :
    Follows rt migrations (.op o k) Q rows s := by
  intro c r s' hstep
  rcases perform_cases hstep with hanswer | ⟨rfl, hfailed⟩
  · have hr : r = (s.answer o).1 := congrArg Prod.fst hanswer
    have hs : s' = (s.answer o).2 := congrArg Prod.snd hanswer
    rw [← hquiet] at hrel
    subst hr hs
    exact ⟨rows, Or.inl rfl, hrel, hok⟩
  · rw [← hfailed.1] at hrel
    exact ⟨rows, Or.inl rfl, hrel, hfail s' hfailed⟩

/-- One statement inside a transaction. -/
theorem follows_execute {statement : DbWrite} {db : ControlDb rt}
    {Q : Except DbRaised Unit → List LedgerRow → DbSession rt → Prop}
    (hrel : MigratedBy rt migrations rows s.committed) (hworking : s.working = some db)
    (hok : ∀ db', db.apply statement = some db' → Q (.ok ()) rows { s with working := some db' })
    (herror : ∀ s', s'.committed = s.committed → Q (.error .sqlite) rows s') :
    Follows rt migrations (DbProg.execute statement) Q rows s := by
  have hcurrent : s.current = db := by
    unfold DbSession.current
    rw [hworking]
    rfl
  have hrefused : db.apply statement = none → s.answer (.write statement) = (false, s) := by
    intro happly
    show s.write statement = _
    unfold DbSession.write
    rw [hcurrent, happly]
  have hwritten : ∀ db', db.apply statement = some db' →
      s.answer (.write statement) = (true, { s with working := some db' }) := by
    intro db' happly
    show s.write statement = _
    unfold DbSession.write
    rw [hcurrent, happly, hworking]
    rfl
  cases happly : db.apply statement with
  | none =>
      have hanswer := hrefused happly
      apply follows_op hrel
      · rw [hanswer]
      · rw [hanswer]
        exact herror s rfl
      · exact fun s' hfailed => herror s' hfailed.1
  | some db' =>
      have hanswer := hwritten db' happly
      apply follows_op hrel
      · rw [hanswer]
      · rw [hanswer]
        exact hok db' happly
      · exact fun s' hfailed => herror s' hfailed.1

/-- The statements of a migration inside a transaction. -/
theorem follows_executeAll {statements : List (List Char)} {db : ControlDb rt}
    {Q : Except DbRaised Unit → List LedgerRow → DbSession rt → Prop}
    (hrel : MigratedBy rt migrations rows s.committed) (hworking : s.working = some db)
    (hok : ∀ tables, runStatements rt statements db.tables = some tables →
      Q (.ok ()) rows { s with working := some { db with tables } })
    (herror : ∀ s', s'.committed = s.committed → Q (.error .sqlite) rows s') :
    Follows rt migrations (executeAll statements) Q rows s := by
  induction statements generalizing s db with
  | nil =>
      have hdone := hok db.tables rfl
      rw [← hworking] at hdone
      exact hdone
  | cons text rest ih =>
      have hfirst : Follows rt migrations (DbProg.execute (.execute text))
          (fun r rows' s' => rows' = rows ∧ s'.committed = s.committed ∧
            ((∃ tables, r = .ok () ∧ rt.execute text db.tables = some tables ∧
              s' = { s with working := some { db with tables } }) ∨ r = .error .sqlite)) rows s := by
        apply follows_execute hrel hworking
        · intro db' happly
          obtain ⟨tables, hexecute, rfl⟩ := Option.map_eq_some_iff.mp happly
          exact ⟨rfl, rfl, Or.inl ⟨tables, rfl, hexecute, rfl⟩⟩
        · exact fun s' hcommitted => ⟨rfl, hcommitted, Or.inr rfl⟩
      refine Prog.Tracks.andThen hfirst hrel ?_ ?_
      · rintro e rows' s' - ⟨rfl, hcommitted, ⟨_, hok', _⟩ | herror'⟩
        · cases hok'
        · rw [herror']
          exact herror s' hcommitted
      · rintro ⟨⟩ rows' s' hrel' ⟨rfl, hcommitted, ⟨tables, -, hexecute, rfl⟩ | herror'⟩
        · refine ih hrel' rfl (fun tables' hrest => ?_) (fun s' hs' => herror s' hs')
          apply hok tables'
          show (rt.execute text db.tables >>= _) = _
          rw [hexecute]
          exact hrest
        · cases herror'

/-- **A transaction commits what its body made, or leaves the database as it was.** -/
theorem follows_transaction {body : DbProg α} {P : α → ControlDb rt → Prop}
    {Q : Except DbRaised α → List LedgerRow → DbSession rt → Prop}
    (hrel : MigratedBy rt migrations rows s.committed) (hworking : s.working = none)
    (hbody : Follows rt migrations body (fun r rows' s' => rows' = rows ∧
      s'.committed = s.committed ∧ ∀ a, r = .ok a → ∃ db, s'.working = some db ∧ P a db) rows
      { s with working := some s.committed })
    (hcommit : ∀ a db, P a db → ∃ rows', RowStep rows rows' ∧ MigratedBy rt migrations rows' db ∧
      Q (.ok a) rows' ⟨db, none⟩)
    (herror : ∀ e, Q (.error e) rows ⟨s.committed, none⟩) :
    Follows rt migrations (DbProg.transaction body) Q rows s := by
  -- Whether the rollback answers, fails or is cut off, the working database is gone.
  have hrollback : ∀ (e : DbRaised) (s' : DbSession rt), s'.committed = s.committed →
      Follows rt migrations (.op .rollback fun _ => .ret (.error e)) Q rows s' := by
    intro e s' hcommitted
    have hend : Q (.error e) rows ⟨s'.committed, none⟩ := by
      rw [hcommitted]
      exact herror e
    intro c r t hstep
    have ht : t = ⟨s'.committed, none⟩ := by
      cases c <;> exact congrArg Prod.snd (Option.some.inj hstep).symm
    rw [ht]
    exact ⟨rows, Or.inl rfl, (by show MigratedBy _ _ _ _; rw [hcommitted]; exact hrel), hend⟩
  have hbegan : s.answer .begin = (true, { s with working := some s.committed }) := by
    show (if s.working.isSome then _ else _) = _
    rw [hworking]
    rfl
  intro c r s' hstep
  cases c with
  | ok =>
      have hanswer : (r, s') = s.answer .begin := (Option.some.inj hstep).symm
      rw [hbegan] at hanswer
      obtain ⟨rfl, rfl⟩ := Prod.mk.inj hanswer
      refine ⟨rows, Or.inl rfl, hrel, ?_⟩
      refine Prog.Tracks.seq hbody hrel ?_
      rintro (e | a) rows' s' hrel' ⟨rfl, hcommitted, hdone⟩
      -- The body raised: its work is discarded.
      · exact hrollback e s' hcommitted
      · obtain ⟨db, hdb, hP⟩ := hdone a rfl
        obtain ⟨rows'', hgrown, hmigrated, hQ⟩ := hcommit a db hP
        intro c r t hstep
        -- The body returned, so the commit decides: it publishes the work or the transaction is
        -- rolled back.
        rcases perform_cases hstep with hanswer | ⟨rfl, hstays, -⟩
        · have hcommitted' : s'.answer .commit = (true, ⟨db, none⟩) := by
            simp only [DbSession.answer, hdb]
            rfl
          rw [hcommitted'] at hanswer
          obtain ⟨rfl, rfl⟩ := Prod.mk.inj hanswer
          exact ⟨rows'', hgrown, hmigrated, hQ⟩
        · refine ⟨rows', Or.inl rfl, (by show MigratedBy _ _ _ _; rw [hstays]; exact hrel'), ?_⟩
          exact hrollback _ t (hstays.trans hcommitted)
  -- `BEGIN` itself failed, and nothing was begun.
  | fail =>
      obtain ⟨rfl, rfl⟩ := Prod.mk.inj (Option.some.inj hstep)
      have hsame : s = ⟨s.committed, none⟩ := by rw [← hworking]
      have hQ := herror (.state beginFailed)
      rw [← hsame] at hQ
      exact ⟨rows, Or.inl rfl, hrel, hQ⟩
  | abort =>
      obtain ⟨rfl, rfl⟩ := Prod.mk.inj (Option.some.inj hstep)
      exact ⟨rows, Or.inl rfl, hrel, herror _⟩

/-- Where only the error of a program is renamed, what it follows is the same. -/
theorem follows_normalize {message : String} {p : DbProg α}
    {M Q : Except DbRaised α → List LedgerRow → DbSession rt → Prop}
    (hrel : MigratedBy rt migrations rows s.committed) (h : Follows rt migrations p M rows s)
    (hok : ∀ a rows s, M (.ok a) rows s → Q (.ok a) rows s)
    (herror : ∀ e e' rows s, M (.error e) rows s → Q (.error e') rows s) :
    Follows rt migrations (DbProg.normalize message p) Q rows s := by
  refine Prog.Tracks.seq h hrel ?_
  rintro (e | a) rows s - hM
  · cases e with
    | state error => exact herror _ _ rows s hM
    | sqlite => exact herror _ _ rows s hM
  · exact hok a rows s hM

/-- `_apply_one` records its migration, or changes nothing. -/
theorem follows_applyOne {migration : Migration} {stamp : Stamp}
    (hrel : MigratedBy rt migrations rows s.committed) (hworking : s.working = none)
    (hnext : migrations[rows.length]? = some migration)
    (hversion : migration.version = rows.length + 1) :
    Follows rt migrations (applyOne rt migration stamp) (fun r rows' s' => s'.working = none ∧
      ((∃ e, r = .error e ∧ rows' = rows) ∨ (r = .ok () ∧ rows'.length = rows.length + 1))) rows
      s := by
  -- Inside the transaction the statements run first and the row is inserted over what they left.
  have hbody : Follows rt migrations ((executeAll migration.statements).andThen fun _ =>
      DbProg.execute (.insert migration.version ⟨migration.name, migration.checksum rt, stamp⟩))
      (fun r rows' s' => rows' = rows ∧ s'.committed = s.committed ∧ ∀ a, r = .ok a →
        ∃ db, s'.working = some db ∧ ∃ tables table, s.committed.ledger = some table ∧
          runStatements rt migration.statements s.committed.tables = some tables ∧
          db = ⟨tables, some (table.insert (rows.length + 1)
            ⟨migration.name, migration.checksum rt, stamp⟩)⟩) rows
      { s with working := some s.committed } := by
    have hstatements : Follows rt migrations (executeAll migration.statements)
        (fun r rows' s' => rows' = rows ∧ s'.committed = s.committed ∧ ∀ a, r = .ok a →
          ∃ tables, runStatements rt migration.statements s.committed.tables = some tables ∧
            s'.working = some { s.committed with tables }) rows
        { s with working := some s.committed } := by
      apply follows_executeAll (s := { s with working := some s.committed }) hrel rfl
      · exact fun tables hrun => ⟨rfl, rfl, fun _ _ => ⟨tables, hrun, rfl⟩⟩
      · exact fun s' hcommitted => ⟨rfl, hcommitted, nofun⟩
    refine Prog.Tracks.andThen hstatements hrel ?_ ?_
    · rintro e rows' s' - ⟨rfl, hcommitted, -⟩
      exact ⟨rfl, hcommitted, nofun⟩
    · rintro ⟨⟩ rows' s' hrel' ⟨rfl, hcommitted, hdone⟩
      obtain ⟨tables, hrun, hworking'⟩ := hdone () rfl
      apply follows_execute hrel' hworking'
      · intro db' happly
        obtain ⟨table, htable, hinsert⟩ := Option.bind_eq_some_iff.mp happly
        split at hinsert
        · cases hinsert
        · cases hinsert
          rw [hversion]
          exact ⟨rfl, hcommitted, fun _ _ => ⟨_, rfl, tables, table, htable, hrun, rfl⟩⟩
      · exact fun t ht => ⟨rfl, ht.trans hcommitted, nofun⟩
  -- The commit publishes the tables together with the row, and so the database has followed one
  -- migration more.
  refine follows_normalize hrel (follows_transaction (Q := fun r rows' s' => s'.working = none ∧
      ((∃ e, r = .error e ∧ rows' = rows) ∨ (r = .ok () ∧ rows'.length = rows.length + 1)))
    hrel hworking hbody ?_ fun e => ⟨rfl, Or.inl ⟨e, rfl, rfl⟩⟩) (fun a rows s h => h) ?_
  · rintro ⟨⟩ db ⟨tables, table, htable, hrun, rfl⟩
    refine ⟨_, Or.inr ⟨_, rfl⟩, hrel.record htable hnext hrun, rfl, Or.inr ⟨rfl, ?_⟩⟩
    rw [List.length_append, List.length_singleton]
  · rintro e e' rows' s' ⟨hnone, ⟨_, -, rfl⟩ | ⟨hok, -⟩⟩
    · exact ⟨hnone, Or.inl ⟨e', rfl, rfl⟩⟩
    · cases hok

/-- The loop records the definitions that are left, in order, until one fails. -/
theorem follows_applyPending {stamp : Stamp} {before rest : List Migration}
    (hrel : MigratedBy rt migrations rows s.committed) (hworking : s.working = none)
    (hbegins : before ++ rest <+: migrations)
    (hvalid : validateDefinitions (before ++ rest) = .ok ()) (hbefore : before.length ≤ rows.length)
    (hrows : rows.length ≤ (before ++ rest).length) :
    Follows rt migrations (applyPending rt stamp rest rows.length) (fun r rows' s' =>
      s'.working = none ∧ ∀ highest, r = .ok highest → highest = (before ++ rest).length ∧
        rows'.length = (before ++ rest).length) rows s := by
  -- As in the run without faults, the induction is on the definitions still to look at.
  induction rest generalizing before rows s with
  | nil =>
      rw [List.append_nil] at hrows ⊢
      have hlength : rows.length = before.length := Nat.le_antisymm hrows hbefore
      refine ⟨hworking, fun highest hok => ?_⟩
      cases hok
      exact ⟨hlength, hlength⟩
  | cons migration rest ih =>
      have hassoc : before ++ migration :: rest = (before ++ [migration]) ++ rest := by simp
      have hget : (before ++ migration :: rest)[before.length]? = some migration := by simp
      have hversion := version_of_valid hvalid hget
      unfold applyPending
      rw [hassoc] at hbegins hvalid hrows ⊢
      by_cases hskip : migration.version ≤ rows.length
      · rw [if_pos hskip]
        apply ih hrel hworking hbegins hvalid _ hrows
        rw [List.length_append, List.length_singleton]
        omega
      · rw [if_neg hskip]
        have hlength : rows.length = before.length := by omega
        have hnext : migrations[rows.length]? = some migration := by
          rw [hlength]
          obtain ⟨tail, rfl⟩ := hbegins
          simp
        -- The step may be cut off anywhere; where it returns, one row more is there.
        refine Prog.Tracks.andThen (follows_applyOne hrel hworking hnext (by omega)) hrel ?_ ?_
        · rintro e rows' s' - ⟨hnone, -⟩
          exact ⟨hnone, nofun⟩
        · rintro ⟨⟩ rows' s' hrel' ⟨hnone, ⟨_, herror, -⟩ | ⟨-, hgrown⟩⟩
          · cases herror
          · rw [show migration.version = rows'.length by omega]
            apply ih hrel' hnone hbegins hvalid
            · rw [List.length_append, List.length_singleton]
              omega
            · rw [List.length_append, List.length_append, List.length_singleton]
              omega

/-- What `_load_applied` reads of a migrated database. -/
theorem reads_of_migratedBy {db : ControlDb rt} {table : Table Nat LedgerRow}
    (h : MigratedBy rt migrations rows db) (hledger : db.ledger = some table) :
    Reads rows ⟨table.entries.map fun e => ⟨e.1, (e.2.name, e.2.checksum)⟩,
      table.nodupKeys.map₂ fun _ row => (row.name, row.checksum)⟩ where
  lookup := by
    intro version
    have hrow := h.ledger version
    rw [hledger] at hrow
    rw [← hrow]
    exact List.dlookup_map₂ (f := fun _ (row : LedgerRow) => (row.name, row.checksum)) version

/-- Loading the ledger changes neither the rows nor the committed database. -/
theorem follows_loadApplied (hrel : MigratedBy rt migrations rows s.committed)
    (hworking : s.working = none) :
    Follows rt migrations loadApplied (fun r rows' s' => rows' = rows ∧
      s'.committed = s.committed ∧ s'.working = none ∧ ∀ read, r = .ok read → Reads rows read)
      rows s := by
  have hcurrent : s.current = s.committed := by
    unfold DbSession.current
    rw [hworking]
    rfl
  apply follows_op hrel
  · rfl
  · show Follows rt migrations (match s.current.ledger with | none => _ | some rows => _) _ _ s
    rw [hcurrent]
    cases hledger : s.committed.ledger with
    | none => exact ⟨rfl, rfl, hworking, nofun⟩
    | some table =>
        refine ⟨rfl, rfl, hworking, fun read hread => ?_⟩
        cases hread
        exact reads_of_migratedBy hrel hledger
  · exact fun s' hfailed => ⟨rfl, hfailed.1, hfailed.2 hworking, nofun⟩

/-- A whole run follows the migrations, and where it returns every definition has its row. -/
theorem follows_applyAll {stamp : Stamp} (hrel : MigratedBy rt migrations rows s.committed)
    (hworking : s.working = none) (hbegins : definitions <+: migrations)
    (hvalid : validateDefinitions definitions = .ok ()) :
    Follows rt migrations (applyAll rt definitions stamp) (fun r rows' _ =>
      ∀ highest, r = .ok highest → highest = definitions.length ∧
        rows'.length = definitions.length) rows s := by
  have hensure : Follows rt migrations ensureSchemaTable
      (fun _ rows' s' => rows' = rows ∧ s'.working = none) rows s := by
    refine follows_transaction (P := fun _ db => MigratedBy rt migrations rows db) hrel hworking ?_
      ?_ fun e => ⟨rfl, rfl⟩
    · apply follows_execute (s := { s with working := some s.committed }) hrel rfl
      · intro db' happly
        cases happly
        exact ⟨rfl, rfl, fun _ _ => ⟨_, rfl, hrel.createLedger⟩⟩
      · exact fun s' hcommitted => ⟨rfl, hcommitted, nofun⟩
    · exact fun _ db hdb => ⟨rows, Or.inl rfl, hdb, rfl, rfl⟩
  refine follows_normalize (M := fun r rows' _ => ∀ highest, r = .ok highest →
      highest = definitions.length ∧ rows'.length = definitions.length) hrel
    (Prog.Tracks.andThen hensure hrel (fun e rows' s' _ _ => nofun) ?_) (fun a rows s h => h)
    (fun e e' rows s _ => nofun)
  rintro ⟨⟩ rows' s₁ hrel₁ ⟨rfl, hnone₁⟩
  refine Prog.Tracks.andThen (follows_loadApplied hrel₁ hnone₁) hrel₁ (fun e rows' s' _ _ => nofun) ?_
  rintro read rows' s₂ hrel₂ ⟨rfl, -, hnone₂, hread⟩
  have hreads := hread read rfl
  cases hcheck : validateAppliedPrefix rt read definitions with
  | error e => exact nofun
  | ok accepted =>
      have hsame := (validate_eq_ok_iff hreads hvalid).mp hcheck
      have hlength := congrArg List.length hsame
      rw [List.length_map, List.length_map, List.length_take] at hlength
      show Follows rt migrations (applyPending rt stamp definitions (read.versions.getLastD 0)) _
        rows' s₂
      rw [hreads.versions, Versions.getLastD_range']
      refine Prog.Tracks.mono (@follows_applyPending _ _ _ _ _ [] _ hrel₂ hnone₂ hbegins hvalid
        (Nat.zero_le _) ?_) (fun _ _ h => h) fun r rows' s' h => h.2
      show rows'.length ≤ definitions.length
      omega

/-- **`migrate` follows the history**: whatever fails and wherever it is cut, the database is what
the recorded migrations make; where it returns, every definition is recorded. -/
theorem follows_migrate {appliedAt : Option Instant}
    (hrel : MigratedBy rt migrations rows s.committed) (hworking : s.working = none)
    (hbegins : definitions <+: migrations) :
    Follows rt migrations (migrate rt definitions appliedAt) (fun r rows' _ =>
      ∀ highest, r = .ok highest → highest = definitions.length ∧
        rows'.length = definitions.length) rows s := by
  unfold migrate
  cases hvalid : validateDefinitions definitions with
  | error e => exact nofun
  | ok valid =>
      cases hstamp : migrationStamp appliedAt with
      | error e => exact nofun
      | ok stamp =>
          show Follows rt migrations (.op .barrier fun (held : Bool) =>
            if held then applyAll rt definitions stamp else DbProg.raise barrierRefused) _ rows s
          apply follows_op hrel
          · rfl
          · exact follows_applyAll hrel hworking hbegins hvalid
          · exact fun s' _ => nofun

end Follows

/-! ## Where nothing fails -/

section Eval

variable {α : Type} {rows : List LedgerRow} {db db' : ControlDb rt} {working : Option (ControlDb rt)}

/-- The run of a program in which every call is answered. -/
def evaluate (p : DbProg α) (s : DbSession rt) : Except DbRaised α × DbSession rt :=
  p.eval DbSession.answer s

theorem evaluate_bind {β : Type} (p : Prog dbSignature β) (f : β → DbProg α) (s : DbSession rt) :
    evaluate (bind (m := Prog dbSignature) p f) s =
      evaluate (f (p.eval DbSession.answer s).1) (p.eval DbSession.answer s).2 :=
  Prog.eval_bind p f

theorem evaluate_andThen_ok {β : Type} {p : DbProg β} {f : β → DbProg α} {b : β}
    {s t : DbSession rt} (h : evaluate p s = (.ok b, t)) :
    evaluate (p.andThen f) s = evaluate (f b) t := Prog.eval_andThen_ok h

theorem evaluate_andThen_error {β : Type} {p : DbProg β} {f : β → DbProg α} {raised : DbRaised}
    {s t : DbSession rt} (h : evaluate p s = (.error raised, t)) :
    evaluate (p.andThen f) s = (.error raised, t) := Prog.eval_andThen_error h

/-- What `except sqlite3.Error` makes of a result. -/
def normalized (message : String) : Except DbRaised α → Except DbRaised α
  | .error .sqlite => .error (.state (migrationFail message))
  | r => r

theorem evaluate_normalize {message : String} {p : DbProg α} {s t : DbSession rt}
    {r : Except DbRaised α} (h : evaluate p s = (r, t)) :
    evaluate (DbProg.normalize message p) s = (normalized message r, t) := by
  unfold DbProg.normalize
  rw [evaluate_bind, show p.eval DbSession.answer s = _ from h]
  cases r with
  | ok a => rfl
  | error e => cases e <;> rfl

/-- A transaction whose body returns commits what the body has worked on. -/
theorem evaluate_transaction_ok {body : DbProg α} {a : α}
    (h : evaluate body ⟨db, some db⟩ = (.ok a, ⟨db, some db'⟩)) :
    evaluate (DbProg.transaction body) ⟨db, none⟩ = (.ok a, ⟨db', none⟩) := by
  have hbegan : evaluate (DbProg.transaction body) ⟨db, none⟩ =
      evaluate (bind (m := Prog dbSignature) body _) ⟨db, some db⟩ := rfl
  rw [hbegan, evaluate_bind, show body.eval DbSession.answer ⟨db, some db⟩ = _ from h]
  rfl

/-- A transaction whose body raises leaves the committed database as it was. -/
theorem evaluate_transaction_error {body : DbProg α} {raised : DbRaised}
    (h : evaluate body ⟨db, some db⟩ = (.error raised, ⟨db, working⟩)) :
    evaluate (DbProg.transaction body) ⟨db, none⟩ = (.error raised, ⟨db, none⟩) := by
  have hbegan : evaluate (DbProg.transaction body) ⟨db, none⟩ =
      evaluate (bind (m := Prog dbSignature) body _) ⟨db, some db⟩ := rfl
  rw [hbegan, evaluate_bind, show body.eval DbSession.answer ⟨db, some db⟩ = _ from h]
  rfl

/-- A statement takes effect on the working database or raises without an effect. -/
theorem evaluate_execute {statement : DbWrite} {committed : ControlDb rt} :
    (∀ db', db.apply statement = some db' →
      evaluate (DbProg.execute statement) ⟨committed, some db⟩ = (.ok (), ⟨committed, some db'⟩)) ∧
    (db.apply statement = none →
      evaluate (DbProg.execute statement) ⟨committed, some db⟩ =
        (.error .sqlite, ⟨committed, some db⟩)) := by
  have hcurrent : (DbSession.mk committed (some db)).current = db := rfl
  constructor
  · intro db' happly
    have hanswer : DbSession.write ⟨committed, some db⟩ statement =
        (true, ⟨committed, some db'⟩) := by
      unfold DbSession.write
      rw [hcurrent, happly]
      rfl
    show evaluate (if (DbSession.write _ statement).1 then DbProg.done () else .ret (.error .sqlite))
      (DbSession.write _ statement).2 = _
    rw [hanswer]
    rfl
  · intro happly
    have hanswer : DbSession.write ⟨committed, some db⟩ statement =
        (false, ⟨committed, some db⟩) := by
      unfold DbSession.write
      rw [hcurrent, happly]
    show evaluate (if (DbSession.write _ statement).1 then DbProg.done () else .ret (.error .sqlite))
      (DbSession.write _ statement).2 = _
    rw [hanswer]
    rfl

/-- The statements of a migration take effect together, or the first that fails raises. -/
theorem evaluate_executeAll {statements : List (List Char)} {committed : ControlDb rt} :
    (∀ tables, runStatements rt statements db.tables = some tables →
      evaluate (executeAll statements) ⟨committed, some db⟩ =
        (.ok (), ⟨committed, some { db with tables }⟩)) ∧
    (runStatements rt statements db.tables = none → ∃ working,
      evaluate (executeAll statements) ⟨committed, some db⟩ =
        (.error .sqlite, ⟨committed, working⟩)) := by
  induction statements generalizing db with
  | nil =>
      refine ⟨fun tables h => ?_, nofun⟩
      cases h
      rfl
  | cons text rest ih =>
      have hrun : runStatements rt (text :: rest) db.tables =
          (rt.execute text db.tables).bind (runStatements rt rest) := rfl
      obtain ⟨hdone, hfailed⟩ := @evaluate_execute rt db (.execute text) committed
      have happly : db.apply (.execute text) = (rt.execute text db.tables).map fun tables =>
        { db with tables } := rfl
      rw [hrun]
      cases hexecute : rt.execute text db.tables with
      | none =>
          rw [hexecute] at happly
          exact ⟨nofun, fun _ => ⟨_, evaluate_andThen_error (hfailed happly)⟩⟩
      | some tables =>
          rw [hexecute] at happly
          have hfirst := hdone _ happly
          have hstep : evaluate (executeAll (text :: rest)) ⟨committed, some db⟩ =
              evaluate (executeAll rest) ⟨committed, some { db with tables }⟩ :=
            evaluate_andThen_ok hfirst
          rw [hstep]
          exact @ih { db with tables }

/-- `_apply_one`, where only SQLite's refusal of a statement can stop it. -/
theorem evaluate_applyOne {table : Table Nat LedgerRow} {migration : Migration} {stamp : Stamp}
    (hledger : db.ledger = some table) (hfree : table.lookup migration.version = none) :
    evaluate (applyOne rt migration stamp) ⟨db, none⟩ =
      match runStatements rt migration.statements db.tables with
      | some tables => (.ok (), ⟨⟨tables, some (table.insert migration.version
          ⟨migration.name, migration.checksum rt, stamp⟩)⟩, none⟩)
      | none => (.error (.state (migrationFail "a migration statement failed to apply")),
          ⟨db, none⟩) := by
  obtain ⟨hok, herror⟩ :=
    @evaluate_executeAll rt db migration.statements db
  cases hrun : runStatements rt migration.statements db.tables with
  | none =>
      obtain ⟨working, hstatements⟩ := herror hrun
      have hbody := evaluate_andThen_error (f := fun _ => DbProg.execute
        (.insert migration.version ⟨migration.name, migration.checksum rt, stamp⟩)) hstatements
      exact evaluate_normalize (evaluate_transaction_error hbody)
  | some tables =>
      have hinsert := (@evaluate_execute rt { db with tables } (.insert migration.version
        ⟨migration.name, migration.checksum rt, stamp⟩) db).1
      have happly : ({ db with tables } : ControlDb rt).apply (.insert migration.version
          ⟨migration.name, migration.checksum rt, stamp⟩) = some ⟨tables, some (table.insert
            migration.version ⟨migration.name, migration.checksum rt, stamp⟩)⟩ := by
        show db.ledger.bind _ = _
        rw [hledger]
        show (if (table.lookup migration.version).isSome then _ else _) = _
        rw [hfree]
        rfl
      have hbody := (evaluate_andThen_ok (f := fun _ => DbProg.execute
        (.insert migration.version ⟨migration.name, migration.checksum rt, stamp⟩))
        (hok tables hrun)).trans (hinsert _ happly)
      exact evaluate_normalize (evaluate_transaction_ok hbody)

/-- The database with its ledger table. -/
def ControlDb.prepared (db : ControlDb rt) : ControlDb rt :=
  { db with ledger := some (db.ledger.getD ∅) }

/-- The ledger table is there after the first step of a run, and committed. -/
theorem evaluate_ensureSchemaTable :
    evaluate ensureSchemaTable ⟨db, none⟩ = (.ok (), ⟨db.prepared, none⟩) :=
  evaluate_transaction_ok (evaluate_execute.1 _ rfl)

/-- In a run without faults the ledger is read as it is. -/
theorem evaluate_loadApplied (h : MigratedBy rt migrations rows db) :
    ∃ read, evaluate loadApplied ⟨db.prepared, none⟩ = (.ok read, ⟨db.prepared, none⟩) ∧
      Reads rows read :=
  ⟨_, rfl, reads_of_migratedBy h.createLedger rfl⟩

theorem evaluate_normalize_congr {message : String} {p q : DbProg α} {s t : DbSession rt}
    (h : evaluate p s = evaluate q t) :
    evaluate (DbProg.normalize message p) s = evaluate (DbProg.normalize message q) t := by
  have hq : evaluate q t = ((evaluate q t).1, (evaluate q t).2) := rfl
  rw [evaluate_normalize (h.trans hq), evaluate_normalize hq]

/-- The fault-free run of `migrate`, up to the check of the ledger. -/
theorem evaluate_migrate {instant : Instant} (h : MigratedBy rt migrations rows db)
    (hvalid : validateDefinitions definitions = .ok ()) :
    ∃ read, Reads rows read ∧
      evaluate (migrate rt definitions (some instant)) ⟨db, none⟩ =
        evaluate (DbProg.normalize "the control schema could not be inspected"
          ((DbProg.lift (validateAppliedPrefix rt read definitions)).andThen fun _ =>
            applyPending rt (formatTimestamp instant) definitions rows.length))
          ⟨db.prepared, none⟩ := by
  obtain ⟨read, hload, hreads⟩ := evaluate_loadApplied h
  have hstart : evaluate (migrate rt definitions (some instant)) ⟨db, none⟩ =
      evaluate (applyAll rt definitions (formatTimestamp instant)) ⟨db, none⟩ := by
    unfold migrate
    rw [hvalid]
    rfl
  refine ⟨read, hreads, hstart.trans (evaluate_normalize_congr ?_)⟩
  rw [evaluate_andThen_ok evaluate_ensureSchemaTable, evaluate_andThen_ok hload, hreads.versions,
    Versions.getLastD_range']

/-- A call whose first five operations succeed has read the ledger and found it its own. -/
theorem play_migrate_read {dialect : Dialect rt} {instant : Instant} {tape : List DbFault}
    (hvalid : validateDefinitions definitions = .ok ()) (h : MigratedBy rt definitions rows db) :
    (migrate rt definitions (some instant)).play (sqliteHandler rt dialect) ⟨db, none⟩
        (List.replicate 5 .ok ++ tape) =
      (DbProg.normalize "the control schema could not be inspected"
        (applyPending rt (formatTimestamp instant) definitions rows.length)).play
          (sqliteHandler rt dialect) ⟨db.prepared, none⟩ tape := by
  obtain ⟨read, hreads, hplay⟩ : ∃ read, Reads rows read ∧
      (migrate rt definitions (some instant)).play (sqliteHandler rt dialect) ⟨db, none⟩
          (List.replicate 5 .ok ++ tape) =
        (DbProg.normalize "the control schema could not be inspected"
          ((DbProg.lift (validateAppliedPrefix rt read definitions)).andThen fun _ =>
            applyPending rt (formatTimestamp instant) definitions (read.versions.getLastD 0))).play
            (sqliteHandler rt dialect) ⟨db.prepared, none⟩ tape := by
    refine ⟨_, reads_of_migratedBy h.createLedger rfl, ?_⟩
    unfold migrate
    rw [hvalid]
    rfl
  rw [hplay, (@validate_eq_ok_iff rt _ _ _ hreads hvalid).mpr h.recorded, hreads.versions,
    Versions.getLastD_range']
  rfl

end Eval

end Milhouse.ControlPlane
