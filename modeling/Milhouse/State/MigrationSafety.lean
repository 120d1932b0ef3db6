import Milhouse.State.MigrationRuns

/-!
# Milhouse — crash consistency of the control-plane migrations

A run is a sequence of `migrate` calls over one control database, each with the definitions its
package has, a prefix of the list, and each cut off or failing wherever its tape says. The statements
of the list are taken as SQLite takes them (`sqliteHandler`).

* **`migrations_crash_consistent`** — the database is always what the recorded migrations make, where
  no statement ends the transaction or reaches into the ledger;
* **`committing_migration_breaks`** — a list that is accepted and has such a statement;
* **`modified_refused_iff`** — when a modified migration is refused. The checksum is taken of the
  statements joined by newlines, so it cannot tell where one statement ends and the next begins.
-/

namespace Milhouse.ControlPlane

open Interaction Transition

variable {rt : ControlRuntime} {dialect : Dialect rt} {migrations : List Migration}

/-- One call of `migrate`. -/
structure MigrateCall where
  /-- How many of the definitions the package has. -/
  definitions : Nat
  appliedAt : Option Instant
  tape : List DbFault

/-- What a call leaves, cut where its tape ends. -/
def migrateStep (dialect : Dialect rt) (migrations : List Migration) (db : ControlDb rt)
    (call : MigrateCall) : Option (ControlDb rt) :=
  ((migrate rt (migrations.take call.definitions) call.appliedAt).play (sqliteHandler rt dialect)
    ⟨db, none⟩ call.tape).map fun r => r.2.committed

/-- A call whose first five operations succeed goes on with what is pending. -/
theorem migrateStep_read {rows : List LedgerRow} {db : ControlDb rt} {n : Nat} {instant : Instant}
    {tape : List DbFault} (hvalid : validateDefinitions (migrations.take n) = .ok ())
    (h : MigratedBy rt (migrations.take n) rows db) :
    migrateStep dialect migrations db ⟨n, some instant, List.replicate 5 .ok ++ tape⟩ =
      ((DbProg.normalize "the control schema could not be inspected"
        (applyPending rt (formatTimestamp instant) (migrations.take n) rows.length)).play
          (sqliteHandler rt dialect) ⟨db.prepared, none⟩ tape).map fun r => r.2.committed := by
  unfold migrateStep
  rw [play_migrate_read hvalid h]

/-- A ledger has one history. -/
theorem MigratedBy.unique {rows rows' : List LedgerRow} {db : ControlDb rt}
    (h : MigratedBy rt migrations rows db) (h' : MigratedBy rt migrations rows' db) :
    rows = rows' := by
  apply List.ext_getElem?
  intro index
  have hrow := h.ledger (index + 1)
  rw [h'.ledger (index + 1)] at hrow
  exact hrow.symm

/-- The calls over one control database, from one that a prefix of the list has made. -/
def migrationSystem (dialect : Dialect rt) (migrations : List Migration) :
    System (ControlDb rt) MigrateCall where
  init db := ∃ rows, MigratedBy rt migrations rows db
  step db call db' := migrateStep dialect migrations db call = some db'

/-- The history only grows, whatever the step. -/
theorem RowStep.grows {rows rows' : List LedgerRow} (h : Relation.ReflTransGen RowStep rows rows') :
    rows <+: rows' := by
  induction h with
  | refl => exact List.prefix_rfl
  | tail _ hstep ih =>
      rcases hstep with rfl | ⟨row, rfl⟩
      · exact ih
      · exact ih.trans (List.prefix_append _ _)

/-- A call keeps what is recorded, and what it adds is recorded. -/
theorem migrateStep_grows {rows : List LedgerRow} {db db' : ControlDb rt} {call : MigrateCall}
    (hplain : Plain dialect migrations) (h : MigratedBy rt migrations rows db)
    (hstep : migrateStep dialect migrations db call = some db') :
    ∃ rows', rows <+: rows' ∧ MigratedBy rt migrations rows' db' := by
  obtain ⟨⟨residual, s⟩, hplay, rfl⟩ := Option.map_eq_some_iff.mp hstep
  rw [play_migrate fun migration hmem => hplain migration (List.mem_of_mem_take hmem)] at hplay
  have hfollows := @follows_migrate _ _ _ _ ⟨db, none⟩ call.appliedAt h rfl
    (List.take_prefix call.definitions migrations)
  obtain ⟨rows', hgrown, hrel, -⟩ := Prog.Tracks.play hfollows h hplay
  exact ⟨rows', RowStep.grows hgrown, hrel⟩

/-! ## Fault-free calls -/

section Complete

variable {rows : List LedgerRow} {db : ControlDb rt} {tables : rt.Tables} {stamp : Stamp}

/-- Where the whole list can be applied, so can what is left of it. -/
theorem MigratedBy.next_runs {migration : Migration} (h : MigratedBy rt migrations rows db)
    (happlicable : applied rt migrations rt.empty = some tables)
    (hnext : migrations[rows.length]? = some migration) :
    ∃ next, runStatements rt migration.statements db.tables = some next := by
  obtain ⟨hlt, hget⟩ := List.getElem?_eq_some_iff.mp hnext
  have hsplit : migrations = migrations.take rows.length ++
      ([migration] ++ migrations.drop (rows.length + 1)) := by
    rw [List.singleton_append, ← hget, ← List.drop_eq_getElem_cons hlt, List.take_append_drop]
  rw [hsplit, applied_append, h.tables, Option.bind_some, applied_append,
    applied_singleton] at happlicable
  obtain ⟨next, hrun, -⟩ := Option.bind_eq_some_iff.mp happlicable
  exact ⟨next, hrun⟩

/-- Without faults the loop records every definition that is left. -/
theorem evaluate_applyPending {table : Table Nat LedgerRow} {before rest : List Migration}
    (h : MigratedBy rt migrations rows db) (hledger : db.ledger = some table)
    (happlicable : applied rt migrations rt.empty = some tables)
    (hsplit : migrations = before ++ rest) (hvalid : validateDefinitions migrations = .ok ())
    (hbefore : before.length ≤ rows.length) :
    ∃ rows' db', evaluate (applyPending rt stamp rest rows.length) ⟨db, none⟩ =
      (.ok migrations.length, ⟨db', none⟩) ∧ MigratedBy rt migrations rows' db' ∧
      rows'.length = migrations.length := by
  -- The induction is on the definitions still to look at; those before them have been applied.
  induction rest generalizing before rows db table with
  | nil =>
      rw [List.append_nil] at hsplit
      have hlength : rows.length = migrations.length := by
        rw [hsplit] at h ⊢
        exact Nat.le_antisymm h.length_le hbefore
      refine ⟨rows, db, ?_, h, hlength⟩
      rw [← hlength]
      rfl
  | cons migration rest ih =>
      have hassoc : migrations = (before ++ [migration]) ++ rest := by simp [hsplit]
      have hversion : migration.version = before.length + 1 :=
        version_of_valid hvalid (by rw [hsplit]; simp)
      unfold applyPending
      -- A definition at or below the applied version is passed over.
      by_cases hskip : migration.version ≤ rows.length
      · rw [if_pos hskip]
        apply ih h hledger hassoc
        rw [List.length_append, List.length_singleton]
        omega
      · rw [if_neg hskip]
        -- Otherwise it is the first pending one: its statements run and its row is free.
        have hlength : rows.length = before.length := by omega
        have hnext : migrations[rows.length]? = some migration := by
          rw [hsplit, hlength]
          simp
        obtain ⟨next, hrun⟩ := h.next_runs happlicable hnext
        have hfree : table.lookup migration.version = none := by
          have hrow := h.ledger migration.version
          rw [hledger, hversion, ← hlength, rowAt, List.getElem?_eq_none (Nat.le_refl _)] at hrow
          rw [hversion, ← hlength]
          exact hrow
        have happly := @evaluate_applyOne rt db table migration stamp hledger hfree
        rw [hrun] at happly
        rw [evaluate_andThen_ok happly]
        have hrecord := @MigratedBy.record _ _ _ _ _ _ _ stamp h hledger hnext hrun
        have hgrown : (rows ++ [LedgerRow.mk migration.name (migration.checksum rt) stamp]).length =
            migration.version := by
          rw [List.length_append, List.length_singleton]
          omega
        rw [show rows.length + 1 = migration.version by omega] at hrecord
        have hrest := ih hrecord rfl hassoc (by
          rw [List.length_append, List.length_append, List.length_singleton]
          exact Nat.succ_le_succ hbefore)
        rw [hgrown] at hrest
        exact hrest

/-- **A fault-free `migrate` ends with every definition recorded.** -/
theorem evaluate_migrate_complete {instant : Instant} (h : MigratedBy rt migrations rows db)
    (hvalid : validateDefinitions migrations = .ok ())
    (happlicable : applied rt migrations rt.empty = some tables) :
    ∃ rows' db', evaluate (migrate rt migrations (some instant)) ⟨db, none⟩ =
      (.ok migrations.length, ⟨db', none⟩) ∧ MigratedBy rt migrations rows' db' ∧
      rows'.length = migrations.length ∧ db'.tables = tables := by
  obtain ⟨read, hreads, heval⟩ := @evaluate_migrate _ _ _ _ _ instant h hvalid
  have hcheck := (@validate_eq_ok_iff rt _ _ _ hreads hvalid).mpr h.recorded
  obtain ⟨rows', db', hpending, hmigrated, hlength⟩ :=
    @evaluate_applyPending _ _ _ _ _ (formatTimestamp instant) _ [] _ h.createLedger rfl
      happlicable rfl hvalid (Nat.zero_le _)
  rw [hcheck] at heval
  refine ⟨rows', db', heval.trans (evaluate_normalize hpending), hmigrated, hlength, ?_⟩
  have htables := hmigrated.tables
  rw [hlength, List.take_length, happlicable] at htables
  exact (Option.some.inj htables).symm

end Complete

/-- **Migration runs are crash-consistent**, where no statement of the list ends the transaction or
reaches into the ledger. After every run the database is what the recorded migrations, a prefix of
the list, make of an empty one. Whatever fails in a further call and wherever it is cut, the recorded
rows stay and the database is again exactly what the recorded migrations make; and a fault-free call
returns with every definition recorded and applied. -/
theorem migrations_crash_consistent {tr : List MigrateCall} {db : ControlDb rt}
    (hplain : Plain dialect migrations) (hrun : Run (migrationSystem dialect migrations) tr db) :
    ∃ rows, MigratedBy rt migrations rows db ∧
      (∀ call db', migrateStep dialect migrations db call = some db' →
        ∃ rows', rows <+: rows' ∧ MigratedBy rt migrations rows' db') ∧
      (∀ instant tables, validateDefinitions migrations = .ok () →
        applied rt migrations rt.empty = some tables →
        ∃ rows' db' n, rows <+: rows' ∧ MigratedBy rt migrations rows' db' ∧
          rows'.length = migrations.length ∧ db'.tables = tables ∧
          (migrate rt migrations (some instant)).play (sqliteHandler rt dialect) ⟨db, none⟩
            (List.replicate n .ok) = some (.ret (.ok migrations.length), ⟨db', none⟩)) := by
  obtain ⟨rows, hmigrated⟩ : ∃ rows, MigratedBy rt migrations rows db := by
    refine hrun.invariant (I := fun db => ∃ rows, MigratedBy rt migrations rows db)
      (fun s hinit => hinit) ?_
    rintro s call s' ⟨rows, h⟩ hstep
    obtain ⟨rows', -, h'⟩ := migrateStep_grows hplain h hstep
    exact ⟨rows', h'⟩
  refine ⟨rows, hmigrated, fun call db' hstep => migrateStep_grows hplain hmigrated hstep, ?_⟩
  intro instant tables hvalid happlicable
  obtain ⟨rows', db', heval, hmigrated', hlength, htables⟩ :=
    @evaluate_migrate_complete _ _ _ _ _ instant hmigrated hvalid happlicable
  have hanswered : ∀ (s : DbSession rt) (o : DbOp),
      (dbHandler rt).perform s o .ok = some (s.answer o) := by
    intro s o
    cases o <;> rfl
  obtain ⟨n, hplay⟩ := Prog.exists_play_eval hanswered (migrate rt migrations (some instant))
    ⟨db, none⟩
  have hplay' : (migrate rt migrations (some instant)).play (sqliteHandler rt dialect) ⟨db, none⟩
      (List.replicate n .ok) = some (.ret (.ok migrations.length), ⟨db', none⟩) := by
    rw [play_migrate hplain, hplay]
    show some (Prog.ret (evaluate (migrate rt migrations (some instant)) ⟨db, none⟩).1,
      (evaluate (migrate rt migrations (some instant)) ⟨db, none⟩).2) = _
    rw [heval]
  have hstep : migrateStep dialect migrations db
      ⟨migrations.length, some instant, List.replicate n .ok⟩ = some db' := by
    unfold migrateStep
    rw [List.take_length, hplay']
    rfl
  obtain ⟨rows'', hgrown, hsame⟩ := migrateStep_grows hplain hmigrated hstep
  rw [hsame.unique hmigrated'] at hgrown
  exact ⟨rows', db', n, hgrown, hmigrated', hlength, htables, hplay'⟩

/-- A database that logs its statements. -/
def sampleControl : ControlRuntime where
  Tables := List (List Char)
  empty := []
  execute text tables := some (tables ++ [text])
  sha256 := id

/-- Two statements. -/
def sampleSplit : Migration :=
  ⟨1, "create_tables".toList, ["CREATE TABLE a (x)".toList, "CREATE TABLE b (x)".toList]⟩

/-- The same text as one statement. -/
def sampleJoined : Migration :=
  ⟨1, "create_tables".toList, ["CREATE TABLE a (x)\nCREATE TABLE b (x)".toList]⟩

/-- A third statement, for a second migration. -/
def sampleSecond : Migration := ⟨2, "create_c".toList, ["CREATE TABLE c (x)".toList]⟩

/-- SQLite ends a transaction at `COMMIT`. -/
def sampleDialect : Dialect sampleControl := fun text =>
  if text = "COMMIT".toList then some .commit else none

/-- Three calls: cut between the statements of the first migration, refused at the statement of the
second, and cut before the barrier. -/
def sampleCalls : List MigrateCall :=
  [⟨2, some ⟨3, by decide⟩, List.replicate 7 .ok⟩,
    ⟨2, some ⟨3, by decide⟩, List.replicate 11 .ok ++ [.abort, .ok]⟩,
    ⟨2, some ⟨3, by decide⟩, []⟩]

/-- What the calls leave: the first migration applied and recorded, and nothing of the second. -/
def sampleFirstOnly : ControlDb sampleControl :=
  ⟨sampleSplit.statements, some ((∅ : Table Nat LedgerRow).insert 1
    ⟨sampleSplit.name, sampleSplit.checksum sampleControl, 0⟩)⟩

/-- An empty database with its ledger table. -/
def sampleEmpty : ControlDb sampleControl := ⟨([] : List (List Char)), some ∅⟩

theorem run_sampleCalls :
    Run (migrationSystem sampleDialect [sampleSplit, sampleSecond]) sampleCalls
      sampleFirstOnly := by
  have hcut : migrateStep sampleDialect [sampleSplit, sampleSecond] (ControlDb.fresh sampleControl)
      ⟨2, some ⟨3, by decide⟩, List.replicate 5 .ok ++ [.ok, .ok]⟩ = some sampleEmpty := by
    rw [migrateStep_read (by decide) migratedBy_fresh]
    rfl
  have hrefused : migrateStep sampleDialect [sampleSplit, sampleSecond] sampleEmpty
      ⟨2, some ⟨3, by decide⟩, List.replicate 5 .ok ++ (List.replicate 6 .ok ++ [.abort, .ok])⟩ =
        some sampleFirstOnly := by
    rw [@migrateStep_read sampleControl sampleDialect _ _ sampleEmpty _ _ _ (by decide) migratedBy_fresh.createLedger]
    rfl
  have hstart : Run (migrationSystem sampleDialect [sampleSplit, sampleSecond]) []
      (ControlDb.fresh sampleControl) := .start ⟨[], migratedBy_fresh⟩
  have hfirst := hstart.snoc hcut
  have hsecond := hfirst.snoc hrefused
  exact hsecond.snoc rfl

theorem migrations_crash_consistent_cut :
    ∃ rows, MigratedBy sampleControl [sampleSplit, sampleSecond] rows sampleFirstOnly ∧
      (∀ call db', migrateStep sampleDialect [sampleSplit, sampleSecond] sampleFirstOnly call =
        some db' → ∃ rows', rows <+: rows' ∧
          MigratedBy sampleControl [sampleSplit, sampleSecond] rows' db') ∧
      ∃ rows' db' n, rows <+: rows' ∧
        MigratedBy sampleControl [sampleSplit, sampleSecond] rows' db' ∧ rows'.length = 2 ∧
        db'.tables = sampleSplit.statements ++ sampleSecond.statements ∧
        (migrate sampleControl [sampleSplit, sampleSecond] (some ⟨3, by decide⟩)).play
          (sqliteHandler sampleControl sampleDialect) ⟨sampleFirstOnly, none⟩
            (List.replicate n .ok) = some (.ret (.ok 2), ⟨db', none⟩) := by
  have hplain : Plain sampleDialect [sampleSplit, sampleSecond] := by
    unfold Plain
    decide
  obtain ⟨rows, hmigrated, hgrows, hcomplete⟩ := migrations_crash_consistent hplain run_sampleCalls
  exact ⟨rows, hmigrated, hgrows, hcomplete ⟨3, by decide⟩ _ (by decide) rfl⟩

/-- A migration whose second statement is `COMMIT`. -/
def sampleCommitting : Migration :=
  ⟨1, "create_tables".toList,
    ["CREATE TABLE a (x)".toList, "COMMIT".toList, "CREATE TABLE b (x)".toList]⟩

/-- **A statement that ends the transaction breaks it**: the list is accepted, and one call that is
cut after that statement leaves a table of a migration that is not recorded. -/
theorem committing_migration_breaks : validateDefinitions [sampleCommitting] = .ok () ∧
    Run (migrationSystem sampleDialect [sampleCommitting])
      [⟨1, some ⟨0, by decide⟩, List.replicate 5 .ok ++ [.ok, .ok, .ok]⟩]
      ⟨["CREATE TABLE a (x)".toList], some ∅⟩ ∧
    ¬ ∃ rows, MigratedBy sampleControl [sampleCommitting] rows
      ⟨["CREATE TABLE a (x)".toList], some ∅⟩ := by
  have hvalid : validateDefinitions [sampleCommitting] = .ok () := by decide
  have hcut : migrateStep sampleDialect [sampleCommitting] (ControlDb.fresh sampleControl)
      ⟨1, some ⟨0, by decide⟩, List.replicate 5 .ok ++ [.ok, .ok, .ok]⟩ =
        some ⟨["CREATE TABLE a (x)".toList], some ∅⟩ := by
    rw [migrateStep_read (by decide) migratedBy_fresh]
    rfl
  have hstart : Run (migrationSystem sampleDialect [sampleCommitting]) []
      (ControlDb.fresh sampleControl) := .start ⟨[], migratedBy_fresh⟩
  refine ⟨hvalid, hstart.snoc hcut, ?_⟩
  rintro ⟨rows, h⟩
  -- the ledger is empty, so no migration may have been applied
  have hnone : rowAt rows 1 = none := (h.ledger 1).symm
  obtain rfl : rows = [] := List.length_eq_zero_iff.mp (by
    by_contra hpos
    have hsome : (rowAt rows 1).isSome := rowAt_isSome.mpr ⟨Nat.le_refl _, by omega⟩
    rw [hnone] at hsome
    cases hsome)
  have htables : some ([] : List (List Char)) = some ["CREATE TABLE a (x)".toList] := h.tables
  cases htables

/-! ## Modified migrations -/

/-- What the checksum and the recorded name tell of a migration. -/
def Migration.printed (migration : Migration) : List Char × List Char :=
  (migration.name, ['\n'].intercalate migration.statements)

/-- Of two migrations of one version the payloads agree where the joined statements do. -/
theorem payload_eq_iff {a b : Migration} (hversion : a.version = b.version) (hname : a.name = b.name)
    (ha : a.statements ≠ []) (hb : b.statements ≠ []) :
    a.payload = b.payload ↔ ['\n'].intercalate a.statements = ['\n'].intercalate b.statements := by
  unfold Migration.payload
  rw [List.intercalate_cons_cons, List.intercalate_cons_cons, List.intercalate_cons_of_ne_nil ha,
    List.intercalate_cons_of_ne_nil hb, hversion, hname]
  constructor
  · intro h
    exact List.append_cancel_left (List.append_cancel_left h)
  · intro h
    rw [h]

/-- Recorded identities agree where what is printed of them does. -/
theorem identity_eq_iff (hsha : Function.Injective rt.sha256) {a b : Migration}
    (hversion : a.version = b.version) (ha : a.statements ≠ []) (hb : b.statements ≠ []) :
    a.identity rt = b.identity rt ↔ a.printed = b.printed := by
  unfold Migration.identity Migration.printed Migration.checksum
  rw [Prod.mk.injEq, Prod.mk.injEq, hsha.eq_iff]
  constructor
  · rintro ⟨hname, hpayload⟩
    exact ⟨hname, (payload_eq_iff hversion hname ha hb).mp hpayload⟩
  · rintro ⟨hname, hjoined⟩
    exact ⟨hname, (payload_eq_iff hversion hname ha hb).mpr hjoined⟩

section Modified

variable {first second : List Migration} {rows : List LedgerRow} {db : ControlDb rt}

/-- The ledger of one list is accepted by another that prints the same for what is recorded. -/
theorem accepted_iff_printed (hsha : Function.Injective rt.sha256)
    (hfirst : validateDefinitions first = .ok ()) (hsecond : validateDefinitions second = .ok ())
    (h : MigratedBy rt first rows db) :
    rows.map LedgerRow.identity = (second.take rows.length).map (Migration.identity rt) ↔
      ∀ index < rows.length,
        first[index]?.map Migration.printed = second[index]?.map Migration.printed := by
  have hlength := h.length_le
  rw [h.recorded]
  have hat : ∀ index < rows.length, ∀ a b, first[index]? = some a → second[index]? = some b →
      (a.identity rt = b.identity rt ↔ a.printed = b.printed) := by
    intro index _ a b ha hb
    exact identity_eq_iff hsha
      ((version_of_valid hfirst ha).trans (version_of_valid hsecond hb).symm)
      (statements_of_valid hfirst ha) (statements_of_valid hsecond hb)
  have hpoint : (first.take rows.length).map (Migration.identity rt) =
      (second.take rows.length).map (Migration.identity rt) ↔
      ∀ index < rows.length, first[index]?.map (Migration.identity rt) =
        second[index]?.map (Migration.identity rt) := by
    constructor
    · intro hsame index hindex
      have hget := congrArg (fun l => l[index]?) hsame
      simpa [List.getElem?_take_of_lt hindex] using hget
    · intro hall
      apply List.ext_getElem?
      intro index
      by_cases hindex : index < rows.length
      · simpa [List.getElem?_take_of_lt hindex] using hall index hindex
      · simp [List.getElem?_take_eq_none (Nat.le_of_not_lt hindex)]
  rw [hpoint]
  refine forall₂_congr fun index hindex => ?_
  obtain ⟨a, ha⟩ : ∃ a, first[index]? = some a :=
    ⟨_, List.getElem?_eq_getElem (Nat.lt_of_lt_of_le hindex hlength)⟩
  rw [ha]
  cases hb : second[index]? with
  | none => simp
  | some b => simpa using hat index hindex a b ha hb

/-- A database with a recorded migration has its ledger table. -/
theorem MigratedBy.prepared (h : MigratedBy rt first rows db) (hrows : rows ≠ []) :
    db.prepared = db := by
  obtain ⟨row, rest, rfl⟩ := List.exists_cons_of_ne_nil hrows
  have hrow := h.ledger 1
  obtain ⟨tables, ledger⟩ := db
  cases ledger with
  | none => cases hrow
  | some table => rfl

/-- The second list is refused over a database of the first, or goes on with what is pending. -/
theorem evaluate_migrate_second {instant : Instant} (hsha : Function.Injective rt.sha256)
    (hfirst : validateDefinitions first = .ok ()) (hsecond : validateDefinitions second = .ok ())
    (h : MigratedBy rt first rows db) (hrows : rows ≠ []) :
    ((¬ ∀ index < rows.length,
        first[index]?.map Migration.printed = second[index]?.map Migration.printed) →
      ∃ error, error.code = "MH_STATE_MIGRATION" ∧
        evaluate (migrate rt second (some instant)) ⟨db, none⟩ = (.error (.state error), ⟨db, none⟩)) ∧
    ((∀ index < rows.length,
        first[index]?.map Migration.printed = second[index]?.map Migration.printed) →
      evaluate (migrate rt second (some instant)) ⟨db, none⟩ =
        evaluate (DbProg.normalize "the control schema could not be inspected"
          (applyPending rt (formatTimestamp instant) second rows.length)) ⟨db, none⟩) := by
  obtain ⟨read, hreads, heval⟩ := @evaluate_migrate _ _ _ _ _ instant h hsecond
  rw [h.prepared hrows] at heval
  rw [← accepted_iff_printed hsha hfirst hsecond h, ← validate_eq_ok_iff hreads hsecond, heval]
  cases hcheck : validateAppliedPrefix rt read second with
  | ok accepted => exact ⟨fun hno => absurd rfl hno, fun _ => rfl⟩
  | error error => exact ⟨fun _ => ⟨error, validate_eq_error hcheck, rfl⟩, nofun⟩

/-- The loop passes over what is recorded. -/
theorem applyPending_skip {stamp : Stamp} {before rest : List Migration} {highest : Nat}
    (h : ∀ migration ∈ before, migration.version ≤ highest) :
    applyPending rt stamp (before ++ rest) highest = applyPending rt stamp rest highest := by
  induction before with
  | nil => rfl
  | cons migration before ih =>
      rw [List.cons_append, applyPending, if_pos (h migration (List.mem_cons_self ..))]
      exact ih fun m hm => h m (List.mem_cons_of_mem _ hm)

/-- What is recorded stays while the loop goes on. -/
theorem evaluate_applyPending_keeps {stamp : Stamp} {rest : List Migration} {highest : Nat}
    {table : Table Nat LedgerRow} (hledger : db.ledger = some table)
    (hrest : ∀ index (hindex : index < rest.length), rest[index].version = highest + index + 1)
    (hfree : ∀ version, highest < version → table.lookup version = none) :
    ∃ r db', evaluate (applyPending rt stamp rest highest) ⟨db, none⟩ = (r, ⟨db', none⟩) ∧
      ∀ version row, table.lookup version = some row →
        (db'.ledger.getD ∅).lookup version = some row := by
  -- Each pending definition writes one row above all that are there, so no row is replaced.
  induction rest generalizing db table highest with
  | nil =>
      refine ⟨.ok highest, db, rfl, fun version row hrow => ?_⟩
      rw [hledger]
      exact hrow
  | cons migration rest ih =>
      have hversion : migration.version = highest + 1 := hrest 0 (Nat.zero_lt_succ _)
      have hone := @evaluate_applyOne rt db table migration stamp hledger
        (hfree _ (by omega))
      unfold applyPending
      rw [if_neg (by omega)]
      cases hrun : runStatements rt migration.statements db.tables with
      | none =>
          rw [hrun] at hone
          refine ⟨_, db, evaluate_andThen_error hone, fun version row hrow => ?_⟩
          rw [hledger]
          exact hrow
      | some tables =>
          rw [hrun] at hone
          rw [evaluate_andThen_ok hone, hversion]
          obtain ⟨r, db', heval, hkeeps⟩ := @ih ⟨tables, some (table.insert (highest + 1)
              ⟨migration.name, migration.checksum rt, stamp⟩)⟩ (highest + 1) _ rfl
            (fun index hindex => by
              have h := hrest (index + 1) (Nat.succ_lt_succ hindex)
              rw [List.getElem_cons_succ] at h
              omega)
            (fun version hlt => by
              rw [AList.lookup_insert_ne (by omega)]
              exact hfree version (by omega))
          refine ⟨r, db', heval, fun version row hrow => hkeeps version row ?_⟩
          have hne : version ≠ highest + 1 := by
            rintro rfl
            rw [hfree _ (Nat.lt_succ_self _)] at hrow
            cases hrow
          rw [AList.lookup_insert_ne hne]
          exact hrow

/-- Going on is refused just where the next pending migration is. -/
theorem pending_refused_iff {stamp : Stamp} (hsecond : validateDefinitions second = .ok ())
    (h : MigratedBy rt first rows db) (hrows : rows ≠ []) :
    (∃ error, error.code = "MH_STATE_MIGRATION" ∧
      evaluate (DbProg.normalize "the control schema could not be inspected"
        (applyPending rt stamp second rows.length)) ⟨db, none⟩ = (.error (.state error), ⟨db, none⟩)) ↔
    ∃ migration, second[rows.length]? = some migration ∧
      runStatements rt migration.statements db.tables = none := by
  -- The applied definitions are passed over, so the run starts at the first pending one.
  have hskip : applyPending rt stamp second rows.length =
      applyPending rt stamp (second.drop rows.length) rows.length := by
    have hsplit := @applyPending_skip rt stamp (second.take rows.length)
      (second.drop rows.length) rows.length (by
        intro migration hmem
        obtain ⟨index, hindex, rfl⟩ := List.mem_take_iff_getElem.mp hmem
        have hversion := version_of_valid hsecond
          (List.getElem?_eq_getElem (show index < second.length by omega))
        omega)
    rw [List.take_append_drop] at hsplit
    exact hsplit
  rw [hskip]
  obtain ⟨table, hledger⟩ : ∃ table, db.ledger = some table :=
    ⟨_, (congrArg ControlDb.ledger (h.prepared hrows)).symm⟩
  have hlookup : ∀ version, table.lookup version = rowAt rows version := by
    intro version
    have hrow := h.ledger version
    rw [hledger] at hrow
    exact hrow
  cases hdrop : second.drop rows.length with
  -- With nothing pending neither side can hold.
  | nil =>
      have hnone : second[rows.length]? = none :=
        List.getElem?_eq_none (List.drop_eq_nil_iff.mp hdrop)
      rw [hnone]
      exact ⟨nofun, nofun⟩
  | cons migration rest =>
      have hlt : rows.length < second.length := by
        rw [← not_le, ← List.drop_eq_nil_iff, hdrop]
        exact List.cons_ne_nil _ _
      rw [List.drop_eq_getElem_cons hlt] at hdrop
      obtain ⟨hget, hrest⟩ := List.cons.inj hdrop
      have hnext : second[rows.length]? = some migration :=
        hget ▸ List.getElem?_eq_getElem hlt
      have hversion := version_of_valid hsecond hnext
      -- No version above the applied ones has a row yet.
      have hfree : ∀ version, rows.length < version → table.lookup version = none := by
        intro version hlt
        rw [hlookup, ← Option.not_isSome_iff_eq_none, rowAt_isSome]
        omega
      have hone := @evaluate_applyOne rt db table migration stamp hledger (hfree _ (by omega))
      unfold applyPending
      rw [if_neg (by omega), hnext]
      -- The first pending migration decides: if it fails the run raises with nothing changed, and
      -- if it applies its row stays, so the database is not the one before.
      cases hrun : runStatements rt migration.statements db.tables with
      | none =>
          rw [hrun] at hone
          refine ⟨fun _ => ⟨migration, rfl, hrun⟩, fun _ =>
            ⟨migrationFail "a migration statement failed to apply", rfl, ?_⟩⟩
          exact evaluate_normalize (evaluate_andThen_error hone)
      | some tables =>
          rw [hrun] at hone
          constructor
          · rintro ⟨error, -, heval⟩
            obtain ⟨r, db', hpending, hkeeps⟩ := @evaluate_applyPending_keeps rt
              ⟨tables, some (table.insert migration.version
                ⟨migration.name, migration.checksum rt, stamp⟩)⟩ stamp rest migration.version _ rfl
              (fun index hindex => by
                subst hrest
                have hindex' : rows.length + 1 + index < second.length := by
                  rw [List.length_drop] at hindex
                  omega
                rw [List.getElem_drop, version_of_valid hsecond (List.getElem?_eq_getElem hindex')]
                omega)
              (fun version hlt => by
                rw [AList.lookup_insert_ne (by omega)]
                exact hfree version (by omega))
            have hfinal := hkeeps migration.version _ (AList.lookup_insert _)
            rw [evaluate_normalize ((evaluate_andThen_ok hone).trans hpending)] at heval
            have hdb : db' = db := congrArg (fun s => s.2.committed) heval
            rw [hdb, hledger] at hfinal
            have hnone : table.lookup migration.version = none := hfree _ (by omega)
            rw [show (some table).getD ∅ = table from rfl, hnone] at hfinal
            cases hfinal
          · rintro ⟨m, hm, hfails⟩
            cases hm
            rw [hrun] at hfails
            cases hfails

end Modified

/-- **When a modified migration is refused.** Two valid lists differ at a recorded migration. A
fault-free `migrate` with the second over a database migrated with the first raises
`MH_STATE_MIGRATION` and changes nothing exactly where some recorded migration is missing from the
second list, or has another name or another newline-joined text of its statements there, or else
where SQLite refuses the first pending migration of the second list. -/
theorem modified_refused_iff {first second : List Migration} {rows : List LedgerRow}
    {db : ControlDb rt} (instant : Instant) (hsha : Function.Injective rt.sha256)
    (hfirst : validateDefinitions first = .ok ()) (hsecond : validateDefinitions second = .ok ())
    (h : MigratedBy rt first rows db)
    (hmodified : ∃ index < rows.length, first[index]? ≠ second[index]?) :
    (∃ error, error.code = "MH_STATE_MIGRATION" ∧
      evaluate (migrate rt second (some instant)) ⟨db, none⟩ = (.error (.state error), ⟨db, none⟩)) ↔
    (∃ index < rows.length,
      first[index]?.map Migration.printed ≠ second[index]?.map Migration.printed) ∨
    ∃ migration, second[rows.length]? = some migration ∧
      runStatements rt migration.statements db.tables = none := by
  have hrows : rows ≠ [] := by
    rintro rfl
    obtain ⟨index, hindex, -⟩ := hmodified
    exact absurd hindex (Nat.not_lt_zero _)
  obtain ⟨hrefused, haccepted⟩ :=
    @evaluate_migrate_second _ _ _ _ _ instant hsha hfirst hsecond h hrows
  have hprinted : (∃ index < rows.length,
      first[index]?.map Migration.printed ≠ second[index]?.map Migration.printed) ↔
      ¬ ∀ index < rows.length,
        first[index]?.map Migration.printed = second[index]?.map Migration.printed := by
    simp only [not_forall, exists_prop, ne_eq]
  rw [hprinted]
  by_cases hsame : ∀ index < rows.length,
      first[index]?.map Migration.printed = second[index]?.map Migration.printed
  · rw [haccepted hsame, pending_refused_iff hsecond h hrows]
    exact ⟨Or.inr, fun hor => hor.resolve_left fun hno => hno hsame⟩
  · exact ⟨fun _ => Or.inl hsame, fun _ => hrefused hsame⟩

/-- The database migrated with the two statements. -/
def sampleMigrated : ControlDb sampleControl :=
  ⟨["CREATE TABLE a (x)".toList, "CREATE TABLE b (x)".toList],
    some ((∅ : Table Nat LedgerRow).insert 1
      ⟨sampleSplit.name, sampleSplit.checksum sampleControl, 0⟩)⟩

theorem migratedBy_sample : MigratedBy sampleControl [sampleSplit]
    [⟨sampleSplit.name, sampleSplit.checksum sampleControl, 0⟩] sampleMigrated :=
  migratedBy_fresh.createLedger.record rfl rfl rfl

/-- A renamed migration is refused. -/
theorem modified_refused_renamed : ∃ error, error.code = "MH_STATE_MIGRATION" ∧
    evaluate (migrate sampleControl [{ sampleSplit with name := ['b'] }] (some ⟨0, by decide⟩))
      ⟨sampleMigrated, none⟩ = (.error (.state error), ⟨sampleMigrated, none⟩) :=
  (modified_refused_iff ⟨0, by decide⟩ (fun _ _ h => h) (by decide) (by decide) migratedBy_sample
    ⟨0, by decide, by decide⟩).mpr (Or.inl ⟨0, by decide, by decide⟩)

/-- Two statements joined into one are not refused. -/
theorem joined_statements_accepted :
    ¬ ∀ (rt : ControlRuntime) (first second : List Migration) (rows : List LedgerRow)
      (db : ControlDb rt) (instant : Instant), Function.Injective rt.sha256 →
      validateDefinitions first = .ok () → validateDefinitions second = .ok () →
      MigratedBy rt first rows db → (∃ index < rows.length, first[index]? ≠ second[index]?) →
      ∃ error, error.code = "MH_STATE_MIGRATION" ∧
        evaluate (migrate rt second (some instant)) ⟨db, none⟩ =
          (.error (.state error), ⟨db, none⟩) := by
  intro hall
  have hsha : Function.Injective sampleControl.sha256 := fun _ _ h => h
  have hsecond : validateDefinitions [sampleJoined] = .ok () := by decide
  have hfirst : validateDefinitions [sampleSplit] = .ok () := by decide
  have hrows : [LedgerRow.mk sampleSplit.name (sampleSplit.checksum sampleControl) 0] ≠ [] :=
    List.cons_ne_nil _ _
  obtain ⟨error, hcode, heval⟩ := hall sampleControl [sampleSplit] [sampleJoined] _ sampleMigrated
    ⟨0, by decide⟩ hsha hfirst hsecond migratedBy_sample ⟨0, by decide, by decide⟩
  have hprinted : ∀ index < 1, [sampleSplit][index]?.map Migration.printed =
      [sampleJoined][index]?.map Migration.printed := by decide
  rw [(evaluate_migrate_second hsha hfirst hsecond migratedBy_sample hrows).2 hprinted] at heval
  obtain ⟨migration, hnext, -⟩ :=
    (pending_refused_iff hsecond migratedBy_sample hrows).mp ⟨error, hcode, heval⟩
  cases hnext

end Milhouse.ControlPlane
