import Milhouse.Spool.Durability
import Mathlib.Data.List.Induction

/-!
# Milhouse — source cursors among commits, reconciliation and retention

`advanceCursor` moves a source's cursor in one transaction that asserts a committed segment and the
revision its caller observed; retention detaches the cursors of a segment in the transaction that
deletes its row. The cursor system is the spool system with any number of clients that read and
advance cursors, in any order and with any arguments.

* **`pruneStatements_eq`** — statement by statement, with the foreign keys checked at the delete, the
  prune is `Ledger.pruneSegment`: no cursor ever blocks it;
* **`World.step_cursors`** — nothing but an advance changes what a cursor says of its source;
* **`source_cursors`** — revisions are 1, 2, 3, …, one advance each, and a cursor's batch id always
  names a row.
-/

namespace Milhouse

open Interaction Transition

/-! ## The operations -/

/-- `_validate_identifier`. -/
def validateCursorIdentifier (value code subject : String) : Except StateError Unit :=
  if value.length = 0 ∨ 256 < value.length then
    .error ⟨code, s!"a cursor {subject} must be bounded non-empty text"⟩
  else .ok ()

def cursorNotRead : StateError := ⟨"MH_STATE_CURSOR", "the cursor could not be read"⟩
def cursorNotAdvanced : StateError := ⟨"MH_STATE_CURSOR", "the cursor could not be advanced"⟩

/-- `read_cursor`; `sqlFails` is a `sqlite3.Error` of the query. -/
def readCursor (sqlFails : Bool) (source : String) (t : Ledger) :
    Except StateError (Option CursorRow) :=
  match validateCursorIdentifier source "MH_STATE_CURSOR_SOURCE" "source" with
  | .error e => .error e
  | .ok () => if sqlFails then .error cursorNotRead else .ok (t.cursors.lookup source)

/-- The arguments of one `advance_cursor` call. -/
structure CursorAdvance where
  source : String
  position : String
  batchId : String
  now : Instant
  expectedRevision : Nat

/-- The row a successful advance writes. -/
def CursorAdvance.row (call : CursorAdvance) : CursorRow :=
  ⟨call.position, some call.batchId, call.expectedRevision + 1, formatTimestamp call.now⟩

/-- The checks before the transaction. -/
def CursorAdvance.arguments (call : CursorAdvance) : Except StateError Unit := do
  validateCursorIdentifier call.source "MH_STATE_CURSOR_SOURCE" "source"
  validateCursorIdentifier call.position "MH_STATE_CURSOR_POSITION" "position"
  validateCursorIdentifier call.batchId "MH_STATE_CURSOR_SEGMENT" "segment reference"

/-- The body of the transaction; binding a revision past 64 bits raises `OverflowError`, which the
caller catches. -/
def CursorAdvance.body (call : CursorAdvance) (t : Ledger) :
    Except StateError (CursorRow × Ledger) :=
  match t.advanceCursor call.source call.position call.batchId (formatTimestamp call.now)
    call.expectedRevision with
  | .error e => .error e
  | .ok t' =>
      if sqliteMaxInteger < call.expectedRevision + 1 then .error cursorNotAdvanced
      else .ok (call.row, t')

/-- `advance_cursor`. -/
def CursorAdvance.perform (call : CursorAdvance) (fault : TxnFault) (t : Ledger) :
    Except StateError CursorRow × Ledger :=
  match call.arguments with
  | .error e => (.error e, t)
  | .ok () => transaction fault cursorNotAdvanced call.body t

/-- A cursor as `advance_cursor` set it and retention must leave it: everything but `batch_id`. -/
def CursorRow.checkpoint (row : CursorRow) : String × Nat × Stamp :=
  (row.position, row.revision, row.updatedAt)

/-! ## The foreign keys -/

namespace Ledger

variable {t t' : Ledger} {r : SegmentRecord} {b source : String} {now : Stamp}

/-- A cursor references the segment. -/
def cursorReferences (t : Ledger) (batchId : String) : Bool :=
  t.cursors.entries.any fun e => e.2.batchId = some batchId

/-- A delivery row references the segment. -/
def exporterReferences (t : Ledger) (batchId : String) : Bool :=
  t.exporters.entries.any fun e => e.1.1 = batchId

/-- `DELETE FROM _segments WHERE batch_id = ?`; `none` is a foreign-key violation. -/
def deleteSegmentRow (t : Ledger) (batchId : String) : Option Ledger :=
  if t.cursorReferences batchId ∨ t.exporterReferences batchId then none
  else some { t with segments := t.segments.erase batchId }

/-- `INSERT INTO _retirements …`; `none` is the primary-key violation. -/
def insertRetirement (t : Ledger) (r : SegmentRecord) (now : Stamp) : Option Ledger :=
  if (t.retirements.lookup r.batchId).isSome then none
  else some { t with retirements := t.retirements.insert r.batchId ⟨r.day, r.fileSha256, now⟩ }

/-- The statements of the `_prune_segment` transaction, in order. -/
def pruneStatements (t : Ledger) (r : SegmentRecord) (now : Stamp) : Option Ledger :=
  let detached := { t with cursors := t.detachCursors r.batchId }
  let undelivered := { detached with exporters := detached.dropExporters r.batchId }
  (undelivered.deleteSegmentRow r.batchId).bind fun t => t.insertRetirement r now

/-- Every non-null batch id of a cursor names a segment row. -/
def CursorsSound (t : Ledger) : Prop :=
  ∀ source row b, t.cursors.lookup source = some row → row.batchId = some b →
    (t.segments.lookup b).isSome

/-- **Detaching** clears the batch id of the cursors of one segment and nothing else. -/
theorem lookup_detachCursors : (t.detachCursors b).lookup source =
    (t.cursors.lookup source).map fun row =>
      if row.batchId = some b then { row with batchId := none } else row := by
  -- Over distinct sources the fold sets each entry once, so a lookup finds the entry or the table
  -- it started from.
  have hfold : ∀ (xs : List ((_ : String) × CursorRow)) (u : Table String CursorRow),
      (xs.map Sigma.fst).Nodup →
      (xs.foldl (fun x e => x.insert e.1 { e.2 with batchId := none }) u).lookup source =
        match xs.find? fun e => e.1 = source with
        | some e => some { e.2 with batchId := none }
        | none => u.lookup source := by
    intro xs
    induction xs with
    | nil => intro u _; rfl
    | cons x xs ih =>
        intro u hnodup
        rw [List.map_cons, List.nodup_cons] at hnodup
        rw [List.foldl_cons, ih _ hnodup.2, List.find?_cons]
        by_cases hx : x.1 = source
        · have hnone : xs.find? (fun e => e.1 = source) = none := by
            rw [List.find?_eq_none]
            intro e he
            simp only [decide_eq_true_eq]
            rintro rfl
            exact hnodup.1 (hx ▸ List.mem_map_of_mem he)
          rw [hnone]
          simp only [hx, decide_true]
          rw [← hx]
          exact AList.lookup_insert _
        · simp only [hx, decide_false]
          cases xs.find? fun e => e.1 = source with
          | none => exact AList.lookup_insert_ne (Ne.symm hx)
          | some e => rfl
  have hkeys : ((t.cursors.entries.filter fun e => e.2.batchId = some b).map Sigma.fst).Nodup :=
    t.cursors.nodupKeys.sublist List.filter_sublist
  unfold detachCursors
  rw [hfold _ _ hkeys]
  -- The filtered entries are those of the table, so an entry that is found is the row of the
  -- source.
  cases hrow : t.cursors.lookup source with
  | none =>
      have hnone : (t.cursors.entries.filter fun e => e.2.batchId = some b).find?
          (fun e => e.1 = source) = none := by
        rw [List.find?_eq_none]
        rintro ⟨s, row⟩ he
        simp only [decide_eq_true_eq]
        rintro rfl
        rw [AList.mem_lookup_iff.mpr (List.mem_of_mem_filter he)] at hrow
        cases hrow
      rw [hnone]
      rfl
  | some row =>
      have hmem : (⟨source, row⟩ : (_ : String) × CursorRow) ∈ t.cursors.entries :=
        AList.mem_lookup_iff.mp hrow
      rw [Option.map_some]
      split
      · rename_i e hfind
        have hsource : e.1 = source := by simpa using List.find?_some hfind
        have he := List.mem_of_find?_eq_some hfind
        have hsame : t.cursors.lookup e.1 = some e.2 :=
          AList.mem_lookup_iff.mpr (List.mem_of_mem_filter he)
        rw [hsource, hrow] at hsame
        have hrowEq := Option.some.inj hsame
        have hbatch : e.2.batchId = some b := by simpa using (List.mem_filter.mp he).2
        rw [hrowEq, if_pos hbatch]
      · rename_i hfind
        rw [List.find?_eq_none] at hfind
        have hbatch : row.batchId ≠ some b := by
          intro hbatch
          refine hfind ⟨source, row⟩ (List.mem_filter.mpr ⟨hmem, by simpa using hbatch⟩) ?_
          simp
        rw [if_neg hbatch]

theorem detachCursors_references : ({ t with cursors := t.detachCursors b } : Ledger).cursorReferences
    b = false := by
  rw [cursorReferences, List.any_eq_false]
  rintro ⟨source, row⟩ he
  have hrow : (t.detachCursors b).lookup source = some row := AList.mem_lookup_iff.mpr he
  rw [lookup_detachCursors] at hrow
  obtain ⟨old, -, rfl⟩ := Option.map_eq_some_iff.mp hrow
  simp only [decide_eq_true_eq]
  split
  · simp
  · assumption

theorem dropExporters_references :
    ({ t with exporters := t.dropExporters b } : Ledger).exporterReferences b = false := by
  rw [exporterReferences, List.any_eq_false]
  rintro ⟨⟨b', e⟩, status⟩ he
  have hrow : (t.dropExporters b).lookup (b', e) = some status := AList.mem_lookup_iff.mpr he
  simp only [decide_eq_true_eq]
  rintro rfl
  unfold dropExporters at hrow
  cases hold : t.exporters.lookup (b', e) with
  | none =>
      rw [lookup_foldl_erase_ne, hold] at hrow
      · cases hrow
      · rintro ⟨e', st⟩ hmem heq
        obtain ⟨-, rfl⟩ := Prod.mk.inj heq
        rw [mem_loadExporters.mp hmem] at hold
        cases hold
  | some st =>
      rw [lookup_foldl_erase_mem (g := fun x => (b', x.1))
        ⟨(e, st), mem_loadExporters.mpr hold, rfl⟩] at hrow
      cases hrow

/-- **No cursor blocks a prune**: the statements succeed wherever the tombstone can be inserted. -/
theorem pruneStatements_eq : t.pruneStatements r now = t.pruneSegment r now := by
  have hcursors : ∀ x, ({ t with cursors := t.detachCursors r.batchId, exporters := x } :
      Ledger).cursorReferences r.batchId = false := fun x => detachCursors_references
  have hexporters : ∀ x, ({ t with cursors := x, exporters := t.dropExporters r.batchId } :
      Ledger).exporterReferences r.batchId = false := fun x => dropExporters_references
  have hdrop : ({ t with cursors := t.detachCursors r.batchId } : Ledger).dropExporters r.batchId =
      t.dropExporters r.batchId := rfl
  simp only [pruneStatements, deleteSegmentRow, insertRetirement, hdrop, hcursors, hexporters,
    pruneSegment, Bool.false_eq_true, or_self, if_false, Option.bind_some]

/-- A new segment keeps the references of the cursors sound. -/
theorem CursorsSound.insertSegment (hs : t.CursorsSound) (h : t.insertSegment r = some t') :
    t'.CursorsSound := by
  obtain ⟨-, hsegments, -, hcursors⟩ := insertSegment_eq h
  intro source row b hrow hb
  rw [hcursors] at hrow
  rw [hsegments]
  by_cases hr : b = r.batchId
  · rw [hr, AList.lookup_insert]
    rfl
  · rw [AList.lookup_insert_ne hr]
    exact hs source row b hrow hb

/-- A prune detaches the cursors from the segment that goes. -/
theorem pruneSegment_cursors (h : t.pruneSegment r now = some t') :
    t'.cursors = t.detachCursors r.batchId := by
  unfold Ledger.pruneSegment at h
  split at h
  · cases h
  · exact Option.some.inj h ▸ rfl

/-- A prune keeps them sound, since it detaches before it deletes. -/
theorem CursorsSound.pruneSegment (hs : t.CursorsSound) (h : t.pruneSegment r now = some t') :
    t'.CursorsSound := by
  obtain ⟨-, hsegments, -⟩ := pruneSegment_eq h
  intro source row b hrow hb
  rw [pruneSegment_cursors h, lookup_detachCursors] at hrow
  obtain ⟨old, hold, hrow⟩ := Option.map_eq_some_iff.mp hrow
  split at hrow
  · rw [← hrow] at hb
    cases hb
  · rename_i hother
    rw [hrow] at hold hother
    have hne : b ≠ r.batchId := by
      rintro rfl
      exact hother hb
    rw [hsegments, AList.lookup_erase_ne hne]
    exact hs source row b hold hb

end Ledger

/-! ## What the spool does to the cursors -/

/-- Every cursor keeps its checkpoint, and the foreign key is kept. -/
def CursorsKept (t t' : Ledger) : Prop :=
  (∀ source, (t'.cursors.lookup source).map CursorRow.checkpoint =
    (t.cursors.lookup source).map CursorRow.checkpoint) ∧ (t.CursorsSound → t'.CursorsSound)

theorem CursorsKept.refl (t : Ledger) : CursorsKept t t := ⟨fun _ => rfl, id⟩

theorem CursorsKept.of_eq {t t' : Ledger} (hcursors : t'.cursors = t.cursors)
    (hsegments : t'.segments = t.segments) : CursorsKept t t' := by
  refine ⟨fun source => by rw [hcursors], fun hs source row b hrow hb => ?_⟩
  rw [hcursors] at hrow
  rw [hsegments]
  exact hs source row b hrow hb

/-- No operation of a commit, a pass, a retention or a delivery touches a checkpoint. -/
theorem SpoolState.Change.cursors {s s' : SpoolState} {o : SpoolOp} (h : Change s o s') :
    CursorsKept s.ledger s'.ledger := by
  cases h with
  | insert r t hinsert =>
      obtain ⟨-, -, -, hcursors⟩ := Ledger.insertSegment_eq hinsert
      exact ⟨fun source => by rw [ledger_setLedger, hcursors], fun hs => hs.insertSegment hinsert⟩
  | prune r now t hprune =>
      refine ⟨fun source => ?_, fun hs => hs.pruneSegment hprune⟩
      show (t.cursors.lookup source).map CursorRow.checkpoint = _
      rw [Ledger.pruneSegment_cursors hprune, Ledger.lookup_detachCursors, Option.map_map]
      congr 1
      funext row
      show CursorRow.checkpoint (if row.batchId = some r.batchId then _ else row) = row.checkpoint
      split <;> rfl
  | status b e status =>
      have htables : (s.ledger.advanceStatus b e status).2.segments = s.ledger.segments ∧
          (s.ledger.advanceStatus b e status).2.retirements = s.ledger.retirements ∧
          (s.ledger.advanceStatus b e status).2.cursors = s.ledger.cursors :=
        Ledger.advanceStatus_tables
      obtain ⟨hsegments, -, hcursors⟩ := htables
      exact CursorsKept.of_eq hcursors hsegments
  | ensure => exact CursorsKept.of_eq (by simp) (by simp)
  | ensureSync => exact CursorsKept.of_eq (by simp) (by simp)
  | _ => exact CursorsKept.of_eq rfl rfl

/-- The move is a cursor advance. -/
def Move.isAdvance {fmt : SegmentFormat} : Move fmt → Bool
  | .advanceCursor .. => true
  | _ => false

/-- **Nothing but an advance changes a checkpoint**, and nothing breaks the foreign key. -/
theorem World.step_cursors {fmt : SegmentFormat} {w w' : World} {m : Move fmt}
    (hadvance : m.isAdvance = false) (h : w.step fmt m = some w') :
    CursorsKept w.store.ledger w'.store.ledger := by
  -- Beside the advances, only the calls of a section or a delivery reach the tables, and of these
  -- only a prune touches a cursor.
  cases m with
  | start sec =>
      simp only [step] at h
      split at h
      · obtain rfl := Option.some.inj h
        exact .refl _
      · cases h
  | run c =>
      obtain ⟨holder, hrunning, h⟩ := Option.bind_eq_some_iff.mp h
      unfold runSection at h
      split at h
      · cases h
      · obtain ⟨⟨r, s'⟩, hperform, rfl⟩ := Option.map_eq_some_iff.mp h
        exact (SpoolState.perform_change hperform).cursors
  | stop =>
      simp only [step] at h
      split at h
      · obtain rfl := Option.some.inj h
        exact .refl _
      · cases h
  | deliver i record frames exporters now =>
      simp only [step] at h
      split at h
      · obtain rfl := Option.some.inj h
        exact .refl _
      · cases h
  | runDelivery i c =>
      obtain ⟨p, hlookup, h⟩ := Option.bind_eq_some_iff.mp h
      unfold runDelivery at h
      split at h
      · cases h
      · obtain ⟨⟨r, s'⟩, hperform, rfl⟩ := Option.map_eq_some_iff.mp h
        exact (SpoolState.perform_change hperform).cursors
  | stopDelivery i =>
      simp only [step] at h
      split at h
      · obtain rfl := Option.some.inj h
        exact .refl _
      · cases h
  | advanceCursor source position batchId now revision => cases hadvance
  | plant p f =>
      simp only [step, plant] at h
      split at h
      · obtain rfl := Option.some.inj h
        exact .refl _
      · cases h
  | crash kept =>
      obtain rfl := Option.some.inj h
      exact .refl _

/-! ## What an advance does -/

section Advance

variable {call : CursorAdvance} {fault : TxnFault} {t t' : Ledger} {row : CursorRow}

/-- **An advance that succeeds** found the revision it expected and a committed segment. -/
theorem CursorAdvance.perform_ok (h : call.perform fault t = (.ok row, t')) :
    (t.segments.lookup call.batchId).isSome ∧
      ((t.cursors.lookup call.source).map CursorRow.revision).getD 0 = call.expectedRevision ∧
      row = call.row ∧ t' = { t with cursors := t.cursors.insert call.source call.row } := by
  unfold perform at h
  split at h
  · cases h
  · obtain ⟨-, hbody⟩ := transaction_ok h
    unfold body Ledger.advanceCursor at hbody
    split at hbody
    · cases hbody
    · rename_i t'' hadvance
      split at hadvance
      · cases hadvance
      · rename_i hsegment
        dsimp only at hadvance
        split at hadvance
        · cases hadvance
        · rename_i hrevision
          have hrevision := not_not.mp hrevision
          obtain rfl := Except.ok.inj hadvance
          split at hbody
          · cases hbody
          · obtain ⟨rfl, rfl⟩ := Prod.mk.inj (Except.ok.inj hbody)
            refine ⟨Option.isSome_iff_ne_none.mpr (by simpa using hsegment), hrevision, rfl, ?_⟩
            rw [CursorAdvance.row, hrevision]

/-- **An advance that fails changes nothing.** -/
theorem CursorAdvance.perform_error {e : StateError} (h : call.perform fault t = (.error e, t')) :
    t' = t := by
  unfold perform at h
  split at h
  · exact (Prod.mk.inj h).2.symm
  · exact transaction_error h

/-- An advance keeps the references sound: it may only name a segment that is there. -/
theorem CursorAdvance.sound (hs : t.CursorsSound) (h : call.perform fault t = (.ok row, t')) :
    t'.CursorsSound := by
  obtain ⟨hsegment, -, -, rfl⟩ := call.perform_ok h
  intro source row b hrow hb
  by_cases hsource : source = call.source
  · rw [hsource, AList.lookup_insert] at hrow
    obtain rfl := Option.some.inj hrow
    obtain rfl := Option.some.inj hb
    exact hsegment
  · rw [AList.lookup_insert_ne hsource] at hrow
    exact hs source row b hrow hb

end Advance

/-! ## Clients and the spool -/

/-- What is remembered of the clients' calls. -/
inductive CursorEvent where
  | advanced (source : String) (row : CursorRow)
  | refused (source : String) (e : StateError)
  | read (source : String) (found : Except StateError (Option CursorRow))

structure CursorWorld where
  world : World
  log : List CursorEvent

inductive CursorMove (fmt : SegmentFormat) where
  /-- Commits, reconciliation, retention, deliveries, foreign files and power losses. -/
  | spool (m : Move fmt)
  /-- A client reads a cursor. -/
  | read (sqlFails : Bool) (source : String)
  /-- A client calls `advance_cursor`. -/
  | advance (fault : TxnFault) (call : CursorAdvance)

namespace CursorWorld

def init : CursorWorld := ⟨.init, []⟩

/-- The world and the log after a call. -/
def called (w : CursorWorld) (source : String) :
    Except StateError CursorRow × Ledger → CursorWorld
  | (.ok row, t) =>
      ⟨{ w.world with store := w.world.store.setLedger t }, w.log ++ [.advanced source row]⟩
  | (.error e, t) =>
      ⟨{ w.world with store := w.world.store.setLedger t }, w.log ++ [.refused source e]⟩

def step (fmt : SegmentFormat) (w : CursorWorld) : CursorMove fmt → Option CursorWorld
  | .spool m =>
      if m.isAdvance then none else (w.world.step fmt m).map fun world => { w with world := world }
  | .read sqlFails source =>
      let found := readCursor sqlFails source w.world.store.ledger
      some { w with log := w.log ++ [.read source found] }
  | .advance fault call => some (w.called call.source (call.perform fault w.world.store.ledger))

end CursorWorld

def cursorSystem (fmt : SegmentFormat) : System CursorWorld (CursorMove fmt) :=
  .ofFun .init (CursorWorld.step fmt)

/-- The rows a source was advanced to, oldest first. -/
def advancesOf (source : String) (log : List CursorEvent) : List CursorRow :=
  log.filterMap fun
    | .advanced source' row => if source' = source then some row else none
    | .refused .. | .read .. => none

/-- The invariant: the advances of each source are its revisions, and its row is the last one up to a
detached batch id. -/
structure CursorWorld.Sound (w : CursorWorld) : Prop where
  revisions : ∀ source, (advancesOf source w.log).map CursorRow.revision =
    List.range' 1 (advancesOf source w.log).length
  row : ∀ source, (w.world.store.ledger.cursors.lookup source).map CursorRow.checkpoint =
    (advancesOf source w.log).getLast?.map CursorRow.checkpoint
  foreignKey : w.world.store.ledger.CursorsSound

section Runs

variable {fmt : SegmentFormat} {w w' : CursorWorld}

/-- The stored revision is the number of advances. -/
theorem CursorWorld.Sound.revision (h : w.Sound) (source : String) :
    ((w.world.store.ledger.cursors.lookup source).map CursorRow.revision).getD 0 =
      (advancesOf source w.log).length := by
  have hrow := h.row source
  have hrevisions := h.revisions source
  rcases List.eq_nil_or_concat (advancesOf source w.log) with hnil | ⟨rest, last, hlast⟩
  · rw [hnil] at hrow ⊢
    rw [Option.map_eq_none_iff.mp (hrow.trans rfl)]
    rfl
  · rw [hlast, List.concat_eq_append] at hrow hrevisions ⊢
    have hrevision := congrArg List.getLast? hrevisions
    rw [List.map_append, List.map_singleton, List.getLast?_concat, List.getLast?_range'] at hrevision
    have hcheckpoint := congrArg (Option.map fun c => c.2.1) hrow
    simp only [Option.map_map, List.getLast?_concat, Option.map_some] at hcheckpoint
    have hshape : ((fun c : String × Nat × Stamp => c.2.1) ∘ CursorRow.checkpoint) =
        CursorRow.revision := rfl
    rw [hshape] at hcheckpoint
    rw [hcheckpoint]
    simpa [CursorRow.checkpoint] using hrevision

theorem advancesOf_advanced (source source' : String) (log : List CursorEvent) (row : CursorRow) :
    advancesOf source (log ++ [.advanced source' row]) =
      advancesOf source log ++ if source' = source then [row] else [] := by
  by_cases h : source' = source <;> simp [advancesOf, h]

theorem advancesOf_refused (source source' : String) (log : List CursorEvent) (e : StateError) :
    advancesOf source (log ++ [.refused source' e]) = advancesOf source log := by
  simp [advancesOf]

theorem advancesOf_read (source source' : String) (log : List CursorEvent)
    (found : Except StateError (Option CursorRow)) :
    advancesOf source (log ++ [.read source' found]) = advancesOf source log := by
  simp [advancesOf]

/-- Every step of the system keeps the cursors sound. -/
theorem CursorWorld.Sound.step (h : w.Sound) {m : CursorMove fmt}
    (hstep : w.step fmt m = some w') : w'.Sound := by
  cases m with
  | spool m =>
      simp only [CursorWorld.step] at hstep
      split at hstep
      · cases hstep
      · rename_i hadvance
        obtain ⟨world, hworld, rfl⟩ := Option.map_eq_some_iff.mp hstep
        obtain ⟨hkept, hsound⟩ := World.step_cursors (by simpa using hadvance) hworld
        exact ⟨h.revisions, fun source => (hkept source).trans (h.row source), hsound h.foreignKey⟩
  -- A read only adds to the log, and the advances in it are as before.
  | read sqlFails source =>
      obtain rfl := Option.some.inj hstep
      refine ⟨fun source' => ?_, fun source' => ?_, h.foreignKey⟩
      · show (advancesOf source' (w.log ++ _)).map _ = _
        rw [advancesOf_read]
        exact h.revisions source'
      · show _ = (advancesOf source' (w.log ++ _)).getLast?.map _
        rw [advancesOf_read]
        exact h.row source'
  | advance fault call =>
      obtain rfl := Option.some.inj hstep
      rcases hcall : call.perform fault w.world.store.ledger with ⟨_ | row, t⟩
      · obtain rfl := call.perform_error hcall
        refine ⟨fun source => ?_, fun source => ?_, h.foreignKey⟩
        · rw [called, advancesOf_refused]
          exact h.revisions source
        · rw [called, advancesOf_refused]
          exact h.row source
      -- The expected revision was the stored one, which is the number of advances so far.
      · obtain ⟨-, hrevision, rfl, ht⟩ := call.perform_ok hcall
        rw [h.revision call.source] at hrevision
        refine ⟨fun source => ?_, fun source => ?_, call.sound h.foreignKey hcall⟩
        · rw [called, advancesOf_advanced]
          by_cases hsource : call.source = source
          · subst hsource
            rw [if_pos rfl, List.map_append, h.revisions, List.length_append, List.length_singleton,
              List.range'_1_concat, List.map_singleton, hrevision]
            simp [CursorAdvance.row, Nat.add_comm]
          · rw [if_neg hsource, List.append_nil]
            exact h.revisions source
        · rw [called, advancesOf_advanced, ht]
          show ((w.world.store.ledger.cursors.insert call.source call.row).lookup source).map _ = _
          by_cases hsource : call.source = source
          · subst hsource
            rw [if_pos rfl, List.getLast?_concat, AList.lookup_insert]
          · rw [if_neg hsource, List.append_nil, AList.lookup_insert_ne (Ne.symm hsource)]
            exact h.row source

/-- **Source cursors among any number of clients, commits, passes and prunes.** In every reachable
state the advances of each source have the revisions 1, 2, 3, …, its row is the last of them, and a
non-null batch id names a segment row; an advance that fails changes nothing, nothing else changes
or removes a checkpoint, and a prune is refused only where its tombstone exists. -/
theorem source_cursors {tr : List (CursorMove fmt)} (hrun : Run (cursorSystem fmt) tr w) :
    (∀ source, (advancesOf source w.log).map CursorRow.revision =
      List.range' 1 (advancesOf source w.log).length) ∧
    (∀ source, (w.world.store.ledger.cursors.lookup source).map CursorRow.checkpoint =
      (advancesOf source w.log).getLast?.map CursorRow.checkpoint) ∧
    (∀ source row b, w.world.store.ledger.cursors.lookup source = some row →
      row.batchId = some b → (w.world.store.ledger.segments.lookup b).isSome) ∧
    (∀ (fault : TxnFault) (call : CursorAdvance) (e : StateError) (t : Ledger),
      call.perform fault w.world.store.ledger = (.error e, t) → t = w.world.store.ledger) ∧
    (∀ (m : Move fmt) (w' : World), m.isAdvance = false → w.world.step fmt m = some w' →
      ∀ source, (w'.store.ledger.cursors.lookup source).map CursorRow.checkpoint =
        (w.world.store.ledger.cursors.lookup source).map CursorRow.checkpoint) ∧
    (∀ (r : SegmentRecord) (now : Stamp), w.world.store.ledger.pruneStatements r now = none →
      (w.world.store.ledger.retirements.lookup r.batchId).isSome) := by
  have hsound : w.Sound := by
    refine hrun.invariant (I := CursorWorld.Sound) ?_ fun w m w' h hstep => h.step hstep
    rintro w rfl
    refine ⟨fun source => rfl, fun source => rfl, fun source row b hrow => ?_⟩
    simp [CursorWorld.init, World.init, SpoolState.empty, Ledger.empty] at hrow
  refine ⟨hsound.revisions, hsound.row, hsound.foreignKey, fun fault call e t h =>
    call.perform_error h, fun m w' hadvance hstep => (World.step_cursors hadvance hstep).1, ?_⟩
  intro r now hprune
  rw [Ledger.pruneStatements_eq, Ledger.pruneSegment] at hprune
  by_contra hnone
  rw [if_neg hnone] at hprune
  cases hprune

end Runs

/-- Two clients advance the same cursor against the sample segment, then retention prunes it. -/
def racingAdvances : List (CursorMove sampleFormat) :=
  sampleCommit.map .spool ++
    [.advance .none ⟨"pull", "7", sampleRecord.batchId, ⟨3000, by decide⟩, 0⟩,
      .advance .none ⟨"pull", "8", sampleRecord.batchId, ⟨3000, by decide⟩, 0⟩,
      .spool (.start (.retain 6))] ++ List.replicate 7 (.spool (.run .ok))

/-- Two advances from one revision race: one is refused, and the revisions count the successes. -/
theorem racingAdvances_cursor : ∃ w, Run (cursorSystem sampleFormat) racingAdvances w ∧
    w.world.store.ledger.segments.lookup sampleRecord.batchId = none ∧
    w.world.store.ledger.cursors.lookup "pull" = some ⟨"7", none, 1, 3⟩ ∧
    (advancesOf "pull" w.log).map CursorRow.revision =
      List.range' 1 (advancesOf "pull" w.log).length := by
  have hexec : ∃ w, Run (cursorSystem sampleFormat) racingAdvances w ∧
      (w.world.store.ledger.segments.lookup sampleRecord.batchId = none ∧
        w.world.store.ledger.cursors.lookup "pull" = some ⟨"7", none, 1, 3⟩) :=
    exists_run_of_exec (by decide +kernel)
  obtain ⟨w, hrun, hpruned, hdetached⟩ := hexec
  exact ⟨w, hrun, hpruned, hdetached, (source_cursors hrun).1 "pull"⟩

end Milhouse
