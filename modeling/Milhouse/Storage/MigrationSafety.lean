import Milhouse.Storage.MigrationRuns

/-!
# Milhouse — ClickHouse migrations survive every cut

A destination stays sound along every run of cut `migrate` calls, exports and merges, so that the
next call is accepted and, uncut, completes it.

* **`Kept.happens`** — what every event keeps;
* **`clickhouse_migrations_survive`** — every migration is recorded, every table is defined as by an
  uninterrupted run, and the transition log has lost no row.
-/

namespace Milhouse.ClickHouse

open Interaction Transition

variable {checksum : Nat → List Char} {database : List Char}

/-! ## The rows of the log -/

/-- The rows of `feedback_transitions`. -/
def Warehouse.logged (w : Warehouse) : List TransitionRow :=
  ((w.tables.lookup transitionsTable).map StoredTable.transitions).getD []

/-- Rows that share a transition id are equal. -/
def UniqueIds (rows : List TransitionRow) : Prop :=
  ∀ a ∈ rows, ∀ b ∈ rows, a.transitionId = b.transitionId → a = b

theorem SoundTables.logged {inserted : List TransitionRow} {w : Warehouse}
    (h : SoundTables inserted w) : Merged inserted w.logged := by
  unfold Warehouse.logged
  cases htable : w.tables.lookup transitionsTable with
  | none =>
      rw [h.unlogged htable]
      exact Merged.refl []
  | some table => exact (h.live table htable).2

/-- Where rows that share an id are equal a merge drops duplicates only. -/
theorem Merged.same_rows {rows rows' : List TransitionRow} (h : Merged rows rows')
    (hunique : UniqueIds rows) (row : TransitionRow) : row ∈ rows' ↔ row ∈ rows := by
  constructor
  · exact h.1 row
  · intro hrow
    obtain ⟨kept, hkept, hkey⟩ := h.2 row hrow
    have hid : kept.transitionId = row.transitionId := congrArg Prod.snd hkey
    rw [← hunique kept (h.1 kept hkept) row hrow hid]
    exact hkept

/-! ## What every event keeps -/

theorem kept_absent : Kept checksum [] Warehouse.absent := by
  refine ⟨0, ⟨by decide, ⟨nofun, nofun, nofun, fun _ => rfl⟩, ⟨nofun, fun h => ?_⟩, nofun,
    fun _ => rfl⟩⟩
  exact absurd h (by decide)

/-- A statement about a play, from what every point of the program keeps. -/
theorem Stage.play {α : Type} {faults : Bool} {inserted : List TransitionRow} {w w' : Warehouse}
    {p p' : WarehouseProg α} {P : α → Warehouse → Prop} {tape : List WarehouseFault}
    (h : Stage checksum faults inserted p P w) (hkept : Kept checksum inserted w)
    (hplay : p.play (warehouseHandler faults) w tape = some (p', w')) :
    Kept checksum inserted w' ∧ ∀ r, p'.value? = some r → Outcome faults P r w' := by
  obtain ⟨hG, hvalue⟩ := Prog.Safe.play (fun _ => rfl) (fun _ hk => hk)
    (fun _ _ _ hab hbc hk => hbc (hab hk)) h hplay
  exact ⟨hG hkept, hvalue⟩

/-- New rows of the transition log. -/
theorem Sound.log {k : Nat} {inserted inserted' : List TransitionRow} {w : Warehouse}
    {table table' : StoredTable} (h : Sound checksum k inserted w)
    (htable : w.tables.lookup transitionsTable = some table)
    (hdef : table'.definition = table.definition) (hrows : Merged inserted' table'.transitions) :
    Sound checksum k inserted' (w.setTable transitionsTable table') := by
  have hledger : (w.setTable transitionsTable table').ledger = w.ledger := by
    unfold Warehouse.ledger
    rw [lookup_setTable, if_neg (by decide)]
  refine ⟨h.bound, ⟨fun _ _ _ => h.tables.database _ table htable, ?_, ?_, ?_⟩,
    h.done.rewrite htable hdef, fun rows hledger' => h.ledger rows (hledger ▸ hledger'),
    fun hnone => h.unrecorded (hledger ▸ hnone)⟩
  · intro other found hfound hne hscratch
    rw [lookup_setTable, if_neg hne] at hfound
    exact h.tables.defined other found hfound hne hscratch
  · intro found hfound
    rw [lookup_setTable, if_pos rfl] at hfound
    obtain rfl := Option.some.inj hfound
    rw [hdef]
    exact ⟨(h.tables.live table htable).1, hrows⟩
  · intro hnone
    rw [lookup_setTable, if_pos rfl] at hnone
    cases hnone

theorem filterMap_transition (rows : List TransitionRow) :
    (rows.map Row.transition).filterMap Row.transition? = rows := by
  rw [List.filterMap_map]
  exact List.filterMap_some

/-- **What every event keeps.** -/
theorem Kept.happens {s s' : DestinationState} {event : Event}
    (hdatabase : Ownership.isIdentifier database = true) (h : Kept checksum s.inserted s.warehouse)
    (hstep : Happens checksum database s event s') : Kept checksum s'.inserted s'.warehouse := by
  obtain ⟨k, hsound⟩ := h
  cases hstep with
  | migrate hplay => exact ((stage_migrate (Or.inl rfl) hdatabase hsound).play ⟨k, hsound⟩ hplay).1
  | @exportRows name rows table hname htable =>
      have hother : name ≠ transitionsTable ∧ name ≠ ledgerTable := by
        rcases hname with rfl | rfl
        · decide
        · decide
      refine ⟨k, hsound.congr (hsound.tables.rewrite htable rfl hother.1)
        (hsound.done.rewrite htable rfl) (Or.inl ?_)⟩
      unfold Warehouse.ledger
      rw [lookup_setTable, if_neg (Ne.symm hother.2)]
  | @exportTransitions rows table htable =>
      have hrows : (table.add (rows.map Row.transition)).transitions = table.transitions ++ rows := by
        show (table.rows ++ rows.map Row.transition).filterMap Row.transition? = _
        rw [List.filterMap_append, filterMap_transition]
        rfl
      obtain ⟨hdefinition, hmerged⟩ := hsound.tables.live table htable
      exact ⟨k, hsound.log htable rfl (hrows ▸ hmerged.append)⟩
  | @merge table rows htable hengine hmerge =>
      have hrows : (StoredTable.mk table.definition (rows.map .transition)).transitions = rows :=
        filterMap_transition rows
      obtain ⟨hdefinition, hmerged⟩ := hsound.tables.live table htable
      exact ⟨k, hsound.log htable rfl (hrows.symm ▸ hmerged.trans hmerge)⟩

theorem kept_reachable {tr : List Event} {s : DestinationState}
    (hdatabase : Ownership.isIdentifier database = true)
    (hrun : Run (destinationSystem checksum database) tr s) :
    Kept checksum s.inserted s.warehouse := by
  apply hrun.invariant (I := fun s => Kept checksum s.inserted s.warehouse)
  · rintro s rfl
    exact kept_absent
  · intro s event s' hkept hstep
    exact hkept.happens hdatabase hstep

/-! ## The uncut call -/

/-- `migrate` where every call is answered. -/
def migrated (checksum : Nat → List Char) (database : List Char) (now : Instant)
    (version : List Char) (w : Warehouse) : Except StorageError MigrateResult × Warehouse :=
  (migrate (clickhouseMigrations checksum) database (some now) version).eval Warehouse.answer w

/-- Under `FINAL` the ledger has one row for each packaged migration, and no other. -/
def Complete (checksum : Nat → List Char) (w : Warehouse) : Prop :=
  ∃ rows, w.ledger = some rows ∧ ∀ version,
    ((finalLedger rows).lookup version).map (fun row => (row.name, row.checksum)) =
      ((clickhouseMigrations checksum).find? fun migration => migration.version = version).map
        fun migration => (migration.name, migration.checksum)

theorem migrated_sound {k : Nat} {inserted : List TransitionRow} {w : Warehouse} {now : Instant}
    {version : List Char} (hdatabase : Ownership.isIdentifier database = true)
    (h : Sound checksum k inserted w) :
    ∃ result w', migrated checksum database now version w = (.ok result, w') ∧
      Sound checksum 6 inserted w' := by
  have hanswered : ∀ w o, (warehouseHandler false).perform w o .ok = some (w.answer o) :=
    fun _ _ => rfl
  obtain ⟨n, hplay⟩ := Prog.exists_play_eval hanswered
    (migrate (clickhouseMigrations checksum) database (some now) version) w
  obtain ⟨-, hvalue⟩ := (stage_migrate (Or.inr rfl) hdatabase h).play ⟨k, h⟩ hplay
  have houtcome := hvalue (migrated checksum database now version w).1 rfl
  cases hresult : migrated checksum database now version w with
  | mk result w' =>
      have hw : (migrated checksum database now version w).2 = w' := by rw [hresult]
      have hsound : Outcome false (fun _ w' => Sound checksum 6 inserted w') result w' := by
        rw [← hw]
        rw [hresult] at houtcome
        exact houtcome
      cases result with
      | error error => cases hsound
      | ok result => exact ⟨result, w', rfl, hsound⟩

/-- Once every migration is applied every name is defined as it is meant to be. -/
theorem Sound.definition {inserted : List TransitionRow} {w : Warehouse}
    (h : Sound checksum 6 inserted w) (name : String) :
    w.definition name = targets.lookup name := by
  obtain ⟨hscratch, hlive⟩ := h.done.deduped (by decide)
  by_cases hlog : name = transitionsTable
  · rw [hlog, hlive]
    rfl
  · by_cases hname : name = scratchTable
    · rw [hname]
      unfold Warehouse.definition
      rw [hscratch]
      rfl
    · unfold Warehouse.definition
      cases hlookup : w.tables.lookup name with
      | some table => exact (h.tables.defined name table hlookup hlog hname).symm
      | none =>
          -- every name that has a target has been created
          have hall : ∀ target ∈ targets, target.1 ∈ createdBy 6 := by decide
          cases htarget : targets.lookup name with
          | none => rfl
          | some definition =>
              have hmem : name ∈ createdBy 6 := by
                obtain ⟨before, after, htargets, -⟩ := List.lookup_eq_some_iff.mp htarget
                have hin : (name, definition) ∈ targets := by
                  rw [htargets]
                  simp
                exact hall _ hin
              have hthere := h.done.created name hmem
              rw [hlookup] at hthere
              cases hthere

/-- A version the packaged migrations do not have. -/
theorem find_packaged (version : Nat) :
    ((clickhouseMigrations checksum).find? fun migration => migration.version = version) =
      if 1 ≤ version then (clickhouseMigrations checksum)[version - 1]? else none := by
  match version with
  | 0 | 1 | 2 | 3 | 4 | 5 | 6 => rfl
  | version + 7 => rfl

theorem Sound.complete {inserted : List TransitionRow} {w : Warehouse}
    (h : Sound checksum 6 inserted w) : Complete checksum w := by
  obtain ⟨table, htable⟩ := ledger_created (k := 5) h.done
  have hledger : w.ledger = some (table.rows.filterMap Row.migration?) := by
    unfold Warehouse.ledger
    rw [htable]
    rfl
  refine ⟨_, hledger, fun version => ?_⟩
  have hloaded := (h.ledger _ hledger).loaded
  rw [find_packaged]
  cases hrow : (finalLedger (table.rows.filterMap Row.migration?)).lookup version with
  | none =>
      have hout : ¬ (1 ≤ version ∧ version ≤ 6) := by
        rw [← hloaded.lookup, hrow]
        simp
      by_cases hlow : 1 ≤ version
      · rw [if_pos hlow, List.getElem?_eq_none (by rw [length_packaged]; omega)]
        rfl
      · rw [if_neg hlow]
        rfl
  | some row =>
      have hin : 1 ≤ version ∧ version ≤ 6 := by
        rw [← hloaded.lookup, hrow]
        rfl
      obtain ⟨migration, hmigration, hname, hchecksum⟩ := hloaded.identity version row hrow
      rw [if_pos hin.1, hmigration, Option.map_some, Option.map_some, hname, hchecksum]

/-- **ClickHouse migrations survive every cut.** After any run of `migrate` calls that may each fail
or be cut at any call, with exports and merges between them, the transition log holds every inserted
row; an uncut `migrate` then accepts the destination, records every packaged migration once, defines
every table and view as an uninterrupted run does, and keeps the log: no row of it is lost, and no
other is there. -/
theorem clickhouse_migrations_survive {tr : List Event} {s : DestinationState}
    (hdatabase : Ownership.isIdentifier database = true)
    (hrun : Run (destinationSystem checksum database) tr s) (now : Instant) (version : List Char) :
    (UniqueIds s.inserted → ∀ row, row ∈ s.warehouse.logged ↔ row ∈ s.inserted) ∧
    ∃ result w', migrated checksum database now version s.warehouse = (.ok result, w') ∧
      Complete checksum w' ∧
      (∀ name, w'.definition name =
        (migrated checksum database now version Warehouse.absent).2.definition name) ∧
      (UniqueIds s.inserted → ∀ row, row ∈ w'.logged ↔ row ∈ s.inserted) := by
  obtain ⟨k, hsound⟩ := kept_reachable hdatabase hrun
  obtain ⟨result, w', hmigrated, hdone⟩ :=
    @migrated_sound _ _ _ _ _ now version hdatabase hsound
  obtain ⟨k₀, habsent⟩ : Kept checksum [] Warehouse.absent := kept_absent
  obtain ⟨result₀, w₀, huninterrupted, hdone₀⟩ :=
    @migrated_sound _ _ _ _ _ now version hdatabase habsent
  refine ⟨hsound.tables.logged.same_rows, result, w', hmigrated, hdone.complete, fun name => ?_,
    hdone.tables.logged.same_rows⟩
  rw [huninterrupted, hdone.definition, hdone₀.definition]

/-- Two transitions of an item; the export of the first is repeated. -/
def sampleTransitions : List TransitionRow :=
  let first : TransitionRow := ⟨['t', '1'], ['i'], 1, ['o'], ['d'], 5, ['a'], []⟩
  let second : TransitionRow := ⟨['t', '2'], ['i'], 2, ['d'], ['o'], 6, ['a'], []⟩
  [first, second, first]

/-- A call that is cut before `0005`, an export, and a call that is cut inside `0005`, with the copy of
the log under its own name already. -/
def sampleEvents : List Event :=
  [.migrate (some ⟨11, by decide⟩) [] (List.replicate 13 .ok), .exportTransitions sampleTransitions,
    .migrate (some ⟨11, by decide⟩) [] (List.replicate 8 .ok)]

/-- The events can happen: the first call creates the log, and a call that is cut is one that ran. -/
theorem run_sampleEvents : ∃ s, s.inserted = sampleTransitions ∧
    Run (destinationSystem (fun _ => []) "milhouse".toList) sampleEvents s := by
  have hcreated : (((migrate (clickhouseMigrations fun _ => []) "milhouse".toList
      (some ⟨11, by decide⟩) []).play (warehouseHandler true) Warehouse.absent
        (List.replicate 13 .ok)).bind fun r => r.2.tables.lookup transitionsTable).isSome = true := by
    decide +kernel
  obtain ⟨table, htable⟩ := Option.isSome_iff_exists.mp hcreated
  obtain ⟨⟨p, w⟩, hplay, hlog⟩ := Option.bind_eq_some_iff.mp htable
  have hcut : Run (destinationSystem (fun _ => []) "milhouse".toList)
      [.migrate (some ⟨11, by decide⟩) [] (List.replicate 13 .ok)] ⟨w, []⟩ :=
    @Run.snoc _ _ _ [] _ _ _ (Run.start rfl) (Happens.migrate hplay)
  have hexport : Happens (fun _ => []) "milhouse".toList ⟨w, []⟩
      (.exportTransitions sampleTransitions)
      ⟨w.setTable transitionsTable (table.add (sampleTransitions.map .transition)),
        sampleTransitions⟩ := .exportTransitions hlog
  have hexported := hcut.snoc hexport
  have hanswered : ∀ w o c, ((warehouseHandler true).perform w o c).isSome := by
    intro w o c
    cases c with
    | ok | fail | lost => rfl
  obtain ⟨p', w', hplay'⟩ := Prog.exists_play hanswered (migrate (clickhouseMigrations fun _ => [])
    "milhouse".toList (some ⟨11, by decide⟩) [])
      (w.setTable transitionsTable (table.add (sampleTransitions.map .transition)))
        (List.replicate 8 .ok)
  exact ⟨⟨w', sampleTransitions⟩, rfl, hexported.snoc (Happens.migrate hplay')⟩

/-- The log after the cut calls and after the uncut one holds the two transitions. -/
theorem clickhouse_migrations_survive_cut : ∃ s,
    Run (destinationSystem (fun _ => []) "milhouse".toList) sampleEvents s ∧
    (∀ row, row ∈ s.warehouse.logged ↔ row ∈ sampleTransitions) ∧
    ∃ result w', migrated (fun _ => []) "milhouse".toList ⟨11, by decide⟩ [] s.warehouse =
        (.ok result, w') ∧
      Complete (fun _ => []) w' ∧
      (∀ name, w'.definition name = (migrated (fun _ => []) "milhouse".toList ⟨11, by decide⟩ []
        Warehouse.absent).2.definition name) ∧
      ∀ row, row ∈ w'.logged ↔ row ∈ sampleTransitions := by
  have hunique : UniqueIds sampleTransitions := by
    unfold UniqueIds
    decide
  obtain ⟨s, hinserted, hrun⟩ := run_sampleEvents
  obtain ⟨hlogged, result, w', hmigrated, hcomplete, hdefinition, hkept⟩ :=
    clickhouse_migrations_survive (by decide) hrun ⟨11, by decide⟩ []
  rw [hinserted] at hlogged hkept
  exact ⟨s, hrun, hlogged hunique, result, w', hmigrated, hcomplete, hdefinition, hkept hunique⟩

end Milhouse.ClickHouse
