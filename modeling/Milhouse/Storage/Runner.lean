import Milhouse.Lib.Refinement
import Milhouse.Lib.Versions
import Milhouse.State.Database
import Milhouse.Storage.Ownership

/-!
# Milhouse — the ClickHouse migration runner

`migrate` runs the statements of every packaged migration that the ledger does not record, in order,
and records each after its last statement. ClickHouse has no transactions: every statement stands by
itself, and a run that is cut leaves what its statements have done. The statements are those the
packaged `.sql` files split into; the definition of a table or view is kept as its text.

A background merge of a `ReplacingMergeTree` drops rows whose sort key another row has.
-/

namespace Milhouse.ClickHouse

open Interaction Transition

/-! ## Tables -/

/-- A row of `feedback_transitions`. -/
structure TransitionRow where
  transitionId : List Char
  itemId : List Char
  revision : Nat
  fromState : List Char
  toState : List Char
  occurredAt : Stamp
  actorType : List Char
  rationale : List Char
  deriving DecidableEq

/-- The sort key of `feedback_transitions` as a `ReplacingMergeTree`. -/
def TransitionRow.sortKey (row : TransitionRow) : List Char × List Char :=
  (row.itemId, row.transitionId)

/-- A row of `_migrations`. -/
structure MigrationRow where
  version : Nat
  name : List Char
  checksum : List Char
  appliedAt : Stamp
  milhouseVersion : List Char
  deriving DecidableEq

/-- A row of the ledger, of the transition log, or of another table. -/
inductive Row
  | migration (row : MigrationRow)
  | transition (row : TransitionRow)
  | other (values : List (List Char))
  deriving DecidableEq

def Row.migration? : Row → Option MigrationRow
  | .migration row => some row
  | _ => none

def Row.transition? : Row → Option TransitionRow
  | .transition row => some row
  | _ => none

/-- A table or a view: its definition, and its rows in the order of the inserts. -/
structure StoredTable where
  definition : String
  rows : List Row
  deriving DecidableEq

structure Warehouse where
  /-- The database exists. -/
  database : Bool
  tables : AList fun _ : String => StoredTable

namespace Warehouse

/-- A server without the database. -/
def absent : Warehouse := ⟨false, ∅⟩

def setTable (w : Warehouse) (name : String) (table : StoredTable) : Warehouse :=
  { w with tables := w.tables.insert name table }

/-- The definition of a table or view. -/
def definition (w : Warehouse) (name : String) : Option String :=
  (w.tables.lookup name).map StoredTable.definition

end Warehouse

/-! ## Statements -/

inductive Statement
  /-- `CREATE TABLE IF NOT EXISTS` or `CREATE VIEW IF NOT EXISTS`. -/
  | create (name definition : String)
  /-- `DROP TABLE IF EXISTS`. -/
  | drop (name : String)
  /-- `INSERT INTO … SELECT …` of every column. -/
  | insertSelect (into source : String)
  /-- `EXCHANGE TABLES`. -/
  | exchange (first second : String)
  deriving DecidableEq

/-- The effect of a statement; `none` where ClickHouse refuses it. -/
def Warehouse.run (w : Warehouse) : Statement → Option Warehouse
  | .create name definition =>
      if !w.database then none
      else if (w.tables.lookup name).isSome then some w
      else some (w.setTable name ⟨definition, []⟩)
  | .drop name =>
      if !w.database then none else some { w with tables := w.tables.erase name }
  | .insertSelect into source => do
      let target ← w.tables.lookup into
      let table ← w.tables.lookup source
      some (w.setTable into { target with rows := target.rows ++ table.rows })
  | .exchange first second => do
      let a ← w.tables.lookup first
      let b ← w.tables.lookup second
      some ((w.setTable first b).setTable second a)

/-! ## The packaged migrations -/

structure StorageMigration where
  version : Nat
  name : List Char
  checksum : List Char
  statements : List Statement

/-- `_migrations`. -/
def ledgerTable : String := "_migrations"

def transitionsTable : String := "feedback_transitions"
def scratchTable : String := "feedback_transitions_0005"

def ledgerDefinition : String :=
  ("(version UInt32, name String, checksum String, applied_at DateTime64(3, 'UTC'), " ++
    "milhouse_version String) ENGINE = ReplacingMergeTree(applied_at) ORDER BY version")

def recordsDefinition : String :=
  ("(schema_version LowCardinality(String), record_id String, record_type LowCardinality(String), " ++
    "name String, target_id String, occurred_at DateTime64(3, 'UTC'), " ++
    "observed_at DateTime64(3, 'UTC'), ingested_at DateTime64(3, 'UTC'), " ++
    "expires_at DateTime64(3, 'UTC'), source_event_id String, source_entity_id String, " ++
    "operation_id String, dedupe_key String, content_hash String, severity LowCardinality(String), " ++
    "privacy_class LowCardinality(String)) ENGINE = ReplacingMergeTree(ingested_at) " ++
    "ORDER BY (target_id, record_type, record_id) TTL toDateTime(expires_at) " ++
    "SETTINGS index_granularity = 8192")

def itemsDefinition : String :=
  ("(item_id String, fingerprint String, created_at DateTime64(3, 'UTC'), target_id String, " ++
    "title String, severity LowCardinality(String), priority LowCardinality(String), " ++
    "actionability LowCardinality(String), confidence LowCardinality(String), " ++
    "privacy_class LowCardinality(String)) ENGINE = ReplacingMergeTree(created_at) " ++
    "ORDER BY (target_id, item_id)")

/-- The columns of `feedback_transitions`. -/
def transitionColumns : String :=
  ("(transition_id String, item_id String, revision UInt32, from_state LowCardinality(String), " ++
    "to_state LowCardinality(String), occurred_at DateTime64(3, 'UTC'), " ++
    "actor_type LowCardinality(String), rationale String)")

/-- `feedback_transitions` as 0003 creates it. -/
def appendOnlyDefinition : String :=
  transitionColumns ++ " ENGINE = MergeTree ORDER BY (item_id, revision, transition_id)"

/-- `feedback_transitions` as 0005 creates it. -/
def dedupDefinition : String :=
  transitionColumns ++ " ENGINE = ReplacingMergeTree ORDER BY (item_id, transition_id)"

def recordsCurrentDefinition : String :=
  "SELECT * FROM records FINAL WHERE expires_at > now64(3, 'UTC')"

def feedbackCurrentDefinition : String :=
  ("SELECT item_id, argMax(to_state, (revision, occurred_at, transition_id)) AS current_state, " ++
    "max(revision) AS current_revision, max(occurred_at) AS last_transition_at " ++
    "FROM feedback_transitions GROUP BY item_id")

def installationDefinition : String :=
  ("(id UInt8, installation_id String, claimed_at DateTime64(3, 'UTC'), milhouse_version String) " ++
    "ENGINE = ReplacingMergeTree(claimed_at) ORDER BY id")

/-- The statements of `0005_feedback_transition_dedup.sql`. -/
def dedupStatements : List Statement :=
  [.drop scratchTable, .create scratchTable dedupDefinition,
    .insertSelect scratchTable transitionsTable, .exchange transitionsTable scratchTable,
    .drop scratchTable]

/-- `CLICKHOUSE_MIGRATIONS`; the checksums are those of the files. -/
def clickhouseMigrations (checksum : Nat → List Char) : List StorageMigration :=
  [⟨1, "core".toList, checksum 1, [.create ledgerTable ledgerDefinition]⟩,
    ⟨2, "records".toList, checksum 2, [.create "records" recordsDefinition]⟩,
    ⟨3, "feedback".toList, checksum 3, [.create "feedback_items" itemsDefinition,
      .create transitionsTable appendOnlyDefinition]⟩,
    ⟨4, "views".toList, checksum 4, [.create "records_current" recordsCurrentDefinition,
      .create "feedback_current" feedbackCurrentDefinition]⟩,
    ⟨5, "feedback_transition_dedup".toList, checksum 5, dedupStatements⟩,
    ⟨6, "installation_ownership".toList, checksum 6,
      [.create "_installation" installationDefinition]⟩]

/-! ## The client -/

inductive WarehouseOp
  /-- `CREATE DATABASE IF NOT EXISTS`. -/
  | createDatabase
  /-- `SELECT count() FROM system.databases`. -/
  | databaseExists
  /-- `SELECT count() FROM system.tables`. -/
  | ledgerExists
  /-- `SELECT version, name, checksum FROM _migrations FINAL`. -/
  | selectLedger
  /-- A statement of a migration. -/
  | command (statement : Statement)
  /-- `INSERT INTO _migrations`. -/
  | insertLedger (row : MigrationRow)
  deriving DecidableEq

/-- `none` and `false` are the exception of a failed call. -/
def WarehouseOp.Resp : WarehouseOp → Type
  | .databaseExists | .ledgerExists => Option Bool
  | .selectLedger => Option (List MigrationRow)
  | .createDatabase | .command .. | .insertLedger .. => Bool

def warehouseSignature : Signature := ⟨WarehouseOp, WarehouseOp.Resp⟩

/-- The rows of the ledger, in the order of the inserts. -/
def Warehouse.ledger (w : Warehouse) : Option (List MigrationRow) :=
  (w.tables.lookup ledgerTable).map fun table => table.rows.filterMap Row.migration?

/-- A change that may be refused: whether it happened, and the database after it. -/
def changed (w : Warehouse) : Option Warehouse → Bool × Warehouse
  | some w' => (true, w')
  | none => (false, w)

/-- The answer of a call that is let succeed, and its effect. -/
def Warehouse.answer (w : Warehouse) : (o : WarehouseOp) → o.Resp × Warehouse
  | .createDatabase => (true, { w with database := true })
  | .databaseExists => (some w.database, w)
  | .ledgerExists => (some (w.tables.lookup ledgerTable).isSome, w)
  | .selectLedger => (w.ledger, w)
  | .command statement => changed w (w.run statement)
  | .insertLedger row => changed w <| (w.tables.lookup ledgerTable).map fun table =>
      w.setTable ledgerTable { table with rows := table.rows ++ [.migration row] }

/-- The answer of a call that fails. -/
def WarehouseOp.failure : (o : WarehouseOp) → o.Resp
  | .databaseExists | .ledgerExists | .selectLedger => none
  | .createDatabase | .command .. | .insertLedger .. => false

inductive WarehouseFault
  | ok
  /-- The call fails without an effect. -/
  | fail
  /-- The call takes effect, and its answer is lost. -/
  | lost
  deriving DecidableEq

/-- `faults` says whether calls may fail. -/
def warehouseHandler (faults : Bool) : Handler warehouseSignature Warehouse WarehouseFault where
  perform
    | w, o, .ok => some (w.answer o)
    | w, o, .fail => if faults then some (o.failure, w) else none
    | w, o, .lost => if faults then some (o.failure, (w.answer o).2) else none

/-! ## The runner -/

abbrev WarehouseProg (α : Type) := Prog warehouseSignature (Except StorageError α)

def migrationFail (message : String) : StorageError := ⟨"MH_STORAGE_MIGRATION", message⟩
def commandFailed : StorageError := ⟨"MH_STORAGE_CLIENT", "a ClickHouse command failed"⟩
def queryFailed : StorageError := ⟨"MH_STORAGE_CLIENT", "a ClickHouse query failed"⟩

/-- `client.command`. -/
def command (o : WarehouseOp) (done : o.Resp → Bool) : WarehouseProg Unit :=
  .op o fun r => if done r then .ret (.ok ()) else .ret (.error commandFailed)

/-- `FINAL`: of the rows of one version the one applied last. -/
def supersede (rows : Table Nat MigrationRow) (row : MigrationRow) : Table Nat MigrationRow :=
  match rows.lookup row.version with
  | none => rows.insert row.version row
  | some last =>
      if last.appliedAt ≤ row.appliedAt then rows.insert row.version row else rows

def finalLedger (rows : List MigrationRow) : Table Nat MigrationRow := rows.foldl supersede ∅

/-- `_load_ledger`. -/
def loadLedger : WarehouseProg (Table Nat MigrationRow) :=
  .op .databaseExists fun
    | none => .ret (.error queryFailed)
    | some false => .ret (.ok ∅)
    | some true => .op .ledgerExists fun
        | none => .ret (.error queryFailed)
        | some false => .ret (.ok ∅)
        | some true => .op .selectLedger fun
            | none => .ret (.error queryFailed)
            | some rows => .ret (.ok (finalLedger rows))

/-- `_validate_applied_prefix`. -/
def validateAppliedPrefix (applied : Table Nat MigrationRow) (migrations : List StorageMigration) :
    Except StorageError Unit :=
  let versions := applied.keys.mergeSort (· ≤ ·)
  let last := versions.getLastD 0
  if versions = [] then .ok ()
  else if versions ≠ List.range' 1 versions.length then
    .error (migrationFail "the migration ledger is not a contiguous prefix")
  else if migrations.length < last then
    .error (migrationFail "the migration ledger records versions with no matching definition")
  else if (migrations.take last).any fun migration =>
      (applied.lookup migration.version).map (fun row => (row.name, row.checksum)) ≠
        some (migration.name, migration.checksum) then
    .error (migrationFail "an applied migration was modified after it was recorded")
  else .ok ()

/-- The statements of a migration, in order. -/
def commands : List Statement → WarehouseProg Unit
  | [] => .ret (.ok ())
  | statement :: rest => (command (.command statement) id).andThen fun _ => commands rest

/-- The statements of a migration, and then its ledger row. -/
def applyMigration (migration : StorageMigration) (stamp : Stamp) (milhouseVersion : List Char) :
    WarehouseProg Unit :=
  (commands migration.statements).andThen fun _ =>
    command (.insertLedger
      ⟨migration.version, migration.name, migration.checksum, stamp, milhouseVersion⟩) id

structure MigrateResult where
  appliedNow : List Nat
  alreadyApplied : List Nat
  deriving DecidableEq

/-- The loop of `migrate`. -/
def applyPending (applied : Table Nat MigrationRow) (stamp : Stamp) (milhouseVersion : List Char) :
    List StorageMigration → MigrateResult → WarehouseProg MigrateResult
  | [], result => .ret (.ok result)
  | migration :: rest, result =>
      if (applied.lookup migration.version).isSome then
        applyPending applied stamp milhouseVersion rest
          { result with alreadyApplied := result.alreadyApplied ++ [migration.version] }
      else
        (applyMigration migration stamp milhouseVersion).andThen fun _ =>
          applyPending applied stamp milhouseVersion rest
            { result with appliedNow := result.appliedNow ++ [migration.version] }

/-- `migrate`; `none` is an instant that is naive or out of range. -/
def migrate (migrations : List StorageMigration) (database : List Char) (now : Option Instant)
    (milhouseVersion : List Char) : WarehouseProg MigrateResult :=
  if !Ownership.isIdentifier database then
    .ret (.error (migrationFail "a bounded ClickHouse database identifier is required"))
  else
    match now with
    | none => .ret (.error
        (migrationFail "the migration timestamp must be an aware in-range UTC instant"))
    | some now =>
        (command .createDatabase id).andThen fun _ => loadLedger.andThen fun applied =>
          match validateAppliedPrefix applied migrations with
          | .error error => .ret (.error error)
          | .ok _ => applyPending applied (formatTimestamp now) milhouseVersion migrations ⟨[], []⟩

/-! ## What happens to a destination -/

structure DestinationState where
  warehouse : Warehouse
  /-- Every transition row an export has inserted. -/
  inserted : List TransitionRow

/-- A merge of the transition log: of every sort key some row stays. -/
def Merged (rows rows' : List TransitionRow) : Prop :=
  (∀ row ∈ rows', row ∈ rows) ∧ ∀ row ∈ rows, ∃ kept ∈ rows', kept.sortKey = row.sortKey

inductive Event
  /-- A `migrate` call, cut where its tape ends. -/
  | migrate (now : Option Instant) (milhouseVersion : List Char) (tape : List WarehouseFault)
  /-- An export inserts into `records` or `feedback_items`. -/
  | exportRows (table : String) (rows : List (List (List Char)))
  /-- An export inserts into `feedback_transitions`. -/
  | exportTransitions (rows : List TransitionRow)
  /-- A background merge of `feedback_transitions` once it replaces. -/
  | merge

/-- The rows of the transition log. -/
def StoredTable.transitions (table : StoredTable) : List TransitionRow :=
  table.rows.filterMap Row.transition?

/-- A table takes further rows. -/
def StoredTable.add (table : StoredTable) (rows : List Row) : StoredTable :=
  { table with rows := table.rows ++ rows }

/-- What an event may lead to; an export into a table that is not there fails. -/
inductive Happens (checksum : Nat → List Char) (database : List Char) :
    DestinationState → Event → DestinationState → Prop
  | migrate {s : DestinationState} {now : Option Instant} {version : List Char}
      {tape : List WarehouseFault} {p : WarehouseProg MigrateResult} {w : Warehouse}
      (hplay : (ClickHouse.migrate (clickhouseMigrations checksum) database now version).play
        (warehouseHandler true) s.warehouse tape = some (p, w)) :
      Happens checksum database s (.migrate now version tape) { s with warehouse := w }
  | exportRows {s : DestinationState} {name : String} {rows : List (List (List Char))}
      {table : StoredTable} (hname : name = "records" ∨ name = "feedback_items")
      (htable : s.warehouse.tables.lookup name = some table) :
      Happens checksum database s (.exportRows name rows)
        { s with warehouse := s.warehouse.setTable name (table.add (rows.map .other)) }
  | exportTransitions {s : DestinationState} {rows : List TransitionRow} {table : StoredTable}
      (htable : s.warehouse.tables.lookup transitionsTable = some table) :
      Happens checksum database s (.exportTransitions rows)
        ⟨s.warehouse.setTable transitionsTable (table.add (rows.map .transition)),
          s.inserted ++ rows⟩
  | merge {s : DestinationState} {table : StoredTable} {rows : List TransitionRow}
      (htable : s.warehouse.tables.lookup transitionsTable = some table)
      (hengine : table.definition = dedupDefinition) (hmerged : Merged table.transitions rows) :
      Happens checksum database s .merge
        ⟨s.warehouse.setTable transitionsTable ⟨table.definition, rows.map .transition⟩,
          s.inserted⟩

/-- A destination from its first migration on. -/
def destinationSystem (checksum : Nat → List Char) (database : List Char) :
    System DestinationState Event where
  init s := s = ⟨Warehouse.absent, []⟩
  step := Happens checksum database

end Milhouse.ClickHouse
