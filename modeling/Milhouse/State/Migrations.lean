import Milhouse.Core.Clock
import Milhouse.Lib.Refinement
import Milhouse.State.Database

/-!
# Milhouse — the control-plane migration runner

`migrate` holds the exclusive commit barrier, creates the ledger in a transaction of its own, checks
the ledger against the definitions, and applies each pending migration together with its ledger row
in one transaction. SQLite is a session over a committed database: a transaction works on a copy that
`COMMIT` makes the database, and a process that dies loses the copy.

The definitions are checked for blank statements and for nothing else, so a statement of a migration
may be any text. Most act on the tables other than the ledger (`ControlRuntime.execute`, and
`dbHandler`, which knows no others). `sqliteHandler` takes every text: a `Dialect` tells which of them
end the transaction or reach into the ledger.
-/

namespace Milhouse

open Interaction

/-- What the runner takes from its surroundings. -/
structure ControlRuntime where
  /-- Every table but the ledger. -/
  Tables : Type
  /-- The tables of a database nothing was applied to. -/
  empty : Tables
  /-- What a statement does that keeps to these tables; `none` where SQLite refuses it. -/
  execute : List Char → Tables → Option Tables
  sha256 : List Char → List Char

namespace ControlPlane

variable {rt : ControlRuntime}

/-! ## Definitions -/

structure Migration where
  version : Nat
  name : List Char
  statements : List (List Char)
  deriving DecidableEq, Repr

/-- `str.isspace` of one character. -/
def isSpace (c : Char) : Bool :=
  (0x09 ≤ c.val && c.val ≤ 0x0D) || (0x1C ≤ c.val && c.val ≤ 0x20) || c.val = 0x85 ||
    c.val = 0xA0 || c.val = 0x1680 || (0x2000 ≤ c.val && c.val ≤ 0x200A) || c.val = 0x2028 ||
    c.val = 0x2029 || c.val = 0x202F || c.val = 0x205F || c.val = 0x3000

namespace Migration

/-- The text `_checksum` digests. -/
def payload (migration : Migration) : List Char :=
  ['\n'].intercalate (Nat.toDigits 10 migration.version :: migration.name :: migration.statements)

/-- `_checksum`. -/
def checksum (rt : ControlRuntime) (migration : Migration) : List Char :=
  rt.sha256 migration.payload

end Migration

/-- `_fail`. -/
def migrationFail (message : String) : StateError := ⟨"MH_STATE_MIGRATION", message⟩

/-- The checks `_validate_definitions` makes of the definition at an index. -/
def validateDefinition (index : Nat) (migration : Migration) : Except StateError Unit :=
  if migration.version ≠ index + 1 then
    .error (migrationFail "migrations must be contiguous positive versions starting at 1")
  else if migration.name = [] then
    .error (migrationFail "each migration requires a non-empty name")
  else if migration.statements = [] then
    .error (migrationFail "each migration requires at least one statement")
  else if migration.statements.any fun statement => statement.all isSpace then
    .error (migrationFail "each migration statement must be non-empty text")
  else .ok ()

/-- The loop of `_validate_definitions`. -/
def validateFrom : Nat → List Migration → Except StateError Unit
  | _, [] => .ok ()
  | index, migration :: rest => do
      validateDefinition index migration
      validateFrom (index + 1) rest

/-- `_validate_definitions`. -/
def validateDefinitions (migrations : List Migration) : Except StateError Unit :=
  validateFrom 0 migrations

/-- `_stamp`; `none` is an instant that is naive or out of range. -/
def migrationStamp : Option Instant → Except StateError Stamp
  | some appliedAt => .ok (formatTimestamp appliedAt)
  | none =>
      .error (migrationFail "the migration timestamp must be an aware in-range UTC instant")

/-! ## The database -/

/-- A row of `_schema_migrations`; its key is the version. -/
structure LedgerRow where
  name : List Char
  checksum : List Char
  appliedAt : Stamp
  deriving DecidableEq, Repr

structure ControlDb (rt : ControlRuntime) where
  tables : rt.Tables
  /-- `_schema_migrations`; `none` before it is created. -/
  ledger : Option (Table Nat LedgerRow)

/-- A database nothing was applied to. -/
def ControlDb.fresh (rt : ControlRuntime) : ControlDb rt := ⟨rt.empty, none⟩

/-- A connection: the committed database, and the copy of an open transaction. -/
structure DbSession (rt : ControlRuntime) where
  committed : ControlDb rt
  working : Option (ControlDb rt)

/-- The statements that write. -/
inductive DbWrite
  /-- `CREATE TABLE IF NOT EXISTS _schema_migrations`. -/
  | createLedger
  /-- A statement of a migration. -/
  | execute (text : List Char)
  /-- `INSERT INTO _schema_migrations`. -/
  | insert (version : Nat) (row : LedgerRow)
  deriving DecidableEq

/-- The database after a statement; `none` where SQLite refuses it. -/
def ControlDb.apply (db : ControlDb rt) : DbWrite → Option (ControlDb rt)
  | .createLedger => some { db with ledger := some (db.ledger.getD ∅) }
  | .execute text => (rt.execute text db.tables).map fun tables => { db with tables }
  | .insert version row => db.ledger.bind fun rows =>
      if (rows.lookup version).isSome then none
      else some { db with ledger := some (rows.insert version row) }

inductive DbOp
  /-- `barrier.exclusive()`. -/
  | barrier
  | begin
  /-- `SELECT version, name, checksum`. -/
  | select
  | write (statement : DbWrite)
  | commit
  | rollback
  deriving DecidableEq

/-- `false` is the exception the call raises. -/
def DbOp.Resp : DbOp → Type
  | .select => Option (Table Nat LedgerRow)
  | _ => Bool

def dbSignature : Signature := ⟨DbOp, DbOp.Resp⟩

/-- The choices of the environment. -/
inductive DbFault
  | ok
  /-- The call fails without an effect. -/
  | fail
  /-- The call fails, and SQLite has ended the transaction itself. -/
  | abort
  deriving DecidableEq

namespace DbSession

/-- The database a statement sees. -/
def current (s : DbSession rt) : ControlDb rt := s.working.getD s.committed

/-- A statement writes into the open transaction, else it is committed at once. -/
def write (s : DbSession rt) (statement : DbWrite) : Bool × DbSession rt :=
  match s.current.apply statement with
  | none => (false, s)
  | some db =>
      if s.working.isSome then (true, { s with working := some db })
      else (true, { s with committed := db })

/-- The answer of a call that is let succeed, and its effect. -/
def answer (s : DbSession rt) : (o : DbOp) → o.Resp × DbSession rt
  | .barrier => (true, s)
  | .begin =>
      if s.working.isSome then (false, s) else (true, { s with working := some s.committed })
  | .select => (s.current.ledger, s)
  | .write statement => s.write statement
  | .commit =>
      match s.working with
      | none => (false, s)
      | some db => (true, ⟨db, none⟩)
  | .rollback => (s.working.isSome, { s with working := none })

end DbSession

/-- The answer of a call that fails. -/
def DbOp.failure : (o : DbOp) → o.Resp
  | .select => none
  | .barrier | .begin | .write .. | .commit | .rollback => false

/-- A failing `ROLLBACK` finds the transaction over. -/
def dbHandler (rt : ControlRuntime) : Handler dbSignature (DbSession rt) DbFault where
  perform
    | s, .rollback, _ => some (s.answer .rollback)
    | s, o, .ok => some (s.answer o)
    | s, o, .fail => some (o.failure, s)
    | s, o, .abort => some (o.failure, { s with working := none })

/-! ### Statements that reach further -/

/-- What a statement can do beside acting on the tables other than the ledger. -/
inductive Reach (rt : ControlRuntime)
  /-- `COMMIT` or `END`. -/
  | commit
  | rollback
  /-- A statement on `_schema_migrations`; `none` where SQLite refuses it. -/
  | rewrite (change : ControlDb rt → Option (ControlDb rt))

/-- How SQLite takes the statements of migrations; `none` is a statement of `rt.execute`. -/
abbrev Dialect (rt : ControlRuntime) := List Char → Option (Reach rt)

/-- The answer to a statement that reaches further. -/
def DbSession.reach (s : DbSession rt) : Reach rt → Bool × DbSession rt
  | .commit => s.answer .commit
  | .rollback => s.answer .rollback
  | .rewrite change =>
      match change s.current with
      | none => (false, s)
      | some db =>
          if s.working.isSome then (true, { s with working := some db })
          else (true, { s with committed := db })

/-- The answer of SQLite, whatever the statements of the migrations are. -/
def DbSession.answerIn (dialect : Dialect rt) (s : DbSession rt) : (o : DbOp) → o.Resp × DbSession rt
  | .write (.execute text) =>
      match dialect text with
      | some reach => s.reach reach
      | none => s.answer (.write (.execute text))
  | o => s.answer o

/-- SQLite; `dbHandler` is the same where every statement keeps to the other tables. -/
def sqliteHandler (rt : ControlRuntime) (dialect : Dialect rt) :
    Handler dbSignature (DbSession rt) DbFault where
  perform
    | s, .rollback, _ => some (s.answer .rollback)
    | s, o, .ok => some (s.answerIn dialect o)
    | s, o, .fail => some (o.failure, s)
    | s, o, .abort => some (o.failure, { s with working := none })

/-! ## The runner -/

/-- What a program raises: a `StateError`, or `sqlite3.Error`. -/
inductive DbRaised
  | state (error : StateError)
  | sqlite
  deriving DecidableEq

abbrev DbProg (α : Type) := Prog dbSignature (Except DbRaised α)

namespace DbProg

variable {α : Type}

def done (value : α) : DbProg α := .ret (.ok value)

def raise (error : StateError) : DbProg α := .ret (.error (.state error))

def lift : Except StateError α → DbProg α
  | .ok value => done value
  | .error error => raise error

/-- `connection.execute`. -/
def execute (statement : DbWrite) : DbProg Unit :=
  .op (.write statement) fun (executed : Bool) =>
    if executed then done () else .ret (.error .sqlite)

/-- `except sqlite3.Error`: normalised to a fixed error. -/
def normalize (message : String) (p : DbProg α) : DbProg α :=
  bind (m := Prog dbSignature) p fun
    | .error .sqlite => raise (migrationFail message)
    | r => .ret r

/-- `ControlDatabase.transaction`. -/
def transaction (body : DbProg α) : DbProg α :=
  .op .begin fun (began : Bool) =>
    if began then
      bind (m := Prog dbSignature) body fun
        | .error raised => .op .rollback fun _ => .ret (.error raised)
        | .ok value => .op .commit fun (committed : Bool) =>
            if committed then done value else .op .rollback fun _ => raise commitFailed
    else raise beginFailed

end DbProg

open DbProg

/-- `_ensure_schema_table`. -/
def ensureSchemaTable : DbProg Unit := DbProg.transaction (execute .createLedger)

/-- The names and checksums of the ledger, by version. -/
abbrev Applied := Table Nat (List Char × List Char)

/-- `_load_applied`. -/
def loadApplied : DbProg Applied :=
  .op .select fun
    | none => .ret (.error .sqlite)
    | some rows => done ⟨rows.entries.map fun e => ⟨e.1, (e.2.name, e.2.checksum)⟩,
        rows.nodupKeys.map₂ fun _ row => (row.name, row.checksum)⟩

/-- `sorted(applied)`. -/
def Applied.versions (applied : Applied) : List Nat := applied.keys.mergeSort (· ≤ ·)

/-- `_validate_applied_prefix`. -/
def validateAppliedPrefix (rt : ControlRuntime) (applied : Applied) (migrations : List Migration) :
    Except StateError Unit :=
  let versions := applied.versions
  let last := versions.getLastD 0
  if versions = [] then .ok ()
  else if versions ≠ List.range' 1 versions.length then
    .error (migrationFail "the migration ledger is not a contiguous prefix")
  else if migrations.length < last then
    .error (migrationFail "the migration ledger records versions with no matching definition")
  else if (migrations.take last).any fun migration =>
      applied.lookup migration.version ≠ some (migration.name, migration.checksum rt) then
    .error (migrationFail "an applied migration was modified after it was recorded")
  else .ok ()

/-- The statements of a migration, in order. -/
def executeAll : List (List Char) → DbProg Unit
  | [] => done ()
  | text :: rest => (execute (.execute text)).andThen fun _ => executeAll rest

/-- `_apply_one`. -/
def applyOne (rt : ControlRuntime) (migration : Migration) (stamp : Stamp) : DbProg Unit :=
  normalize "a migration statement failed to apply" <|
    DbProg.transaction <| (executeAll migration.statements).andThen fun _ =>
      execute (.insert migration.version ⟨migration.name, migration.checksum rt, stamp⟩)

/-- The loop of `_apply_all`. -/
def applyPending (rt : ControlRuntime) (stamp : Stamp) : List Migration → Nat → DbProg Nat
  | [], highest => done highest
  | migration :: rest, highest =>
      if migration.version ≤ highest then applyPending rt stamp rest highest
      else (applyOne rt migration stamp).andThen fun _ =>
        applyPending rt stamp rest migration.version

/-- `_apply_all`. -/
def applyAll (rt : ControlRuntime) (migrations : List Migration) (stamp : Stamp) : DbProg Nat :=
  normalize "the control schema could not be inspected" <|
    ensureSchemaTable.andThen fun _ => loadApplied.andThen fun applied =>
      (lift (validateAppliedPrefix rt applied migrations)).andThen fun _ =>
        applyPending rt stamp migrations (applied.versions.getLastD 0)

def barrierRefused : StateError :=
  ⟨"MH_STATE_BARRIER", "another barrier instance already holds this exclusive lock"⟩

/-- `migrate`. -/
def migrate (rt : ControlRuntime) (migrations : List Migration) (appliedAt : Option Instant) :
    DbProg Nat :=
  (lift (validateDefinitions migrations)).andThen fun _ =>
    (lift (migrationStamp appliedAt)).andThen fun stamp =>
      .op .barrier fun (held : Bool) =>
        if held then applyAll rt migrations stamp else raise barrierRefused

end ControlPlane

end Milhouse
