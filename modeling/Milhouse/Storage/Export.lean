import Mathlib.Data.Prod.Lex
import Mathlib.Data.String.Basic
import Milhouse.Lib.Replacing
import Milhouse.Privacy.Redact
import Milhouse.Spool.Segment
import Milhouse.Storage.Ownership

/-!
# Milhouse — the analytical store, delivered to again and again

`deliver` writes the rows of a segment in three inserts, any of which may be the last that happens.
The three tables are replacing ones, so that at any time rows may be merged away; `feedback_current`
reads its table as it is.

* `deliver_store` — what a call leaves is a prefix of its three inserts;
* `Writes.merges` — whatever is merged meanwhile, the inserts are only merged;
* **`content_of_merges`**, **`content_of_sameRows`** — the content depends on which rows were
  inserted, and on nothing else;
* **`concurrent_content`** — calls whose inserts interleave leave the content of one delivery each;
* **`redelivery_content`** — so do calls one after the other, in any order and number, with any other
  call cut off.
-/

namespace Milhouse.Export

open Replacing

/-! ## Records -/

inductive FeedbackState where
  | open
  | accepted
  | shipped
  | verified
  | regressed
  | rejected
  deriving DecidableEq, Repr

/-- The columns of a `FeedbackItemDataV1`. -/
structure FeedbackItemDataV1 where
  itemId : String
  fingerprint : String
  createdAt : Stamp
  targetId : String
  title : String
  severity : String
  priority : String
  actionability : String
  confidence : String
  privacyClass : PrivacyClass
  deriving DecidableEq

/-- The columns of a `FeedbackTransitionDataV1`. -/
structure FeedbackTransitionDataV1 where
  transitionId : String
  itemId : String
  revision : Nat
  fromState : FeedbackState
  toState : FeedbackState
  timestamp : Stamp
  actorType : String
  rationale : String
  deriving DecidableEq

/-- The payload, as far as the exporter tells payloads apart. -/
inductive RecordDataV1 where
  | feedbackItem (data : FeedbackItemDataV1)
  | feedbackTransition (data : FeedbackTransitionDataV1)
  | other
  deriving DecidableEq

/-- The fields of a `RecordEnvelopeV1` that the exporter reads. -/
structure RecordEnvelope where
  schemaVersion : String
  recordId : String
  recordType : String
  name : String
  /-- `record.target.id`, where there is a target. -/
  targetId : Option String
  occurredAt : Stamp
  observedAt : Stamp
  ingestedAt : Stamp
  expiresAt : Stamp
  sourceEventId : Option String
  sourceEntityId : Option String
  operationId : String
  dedupeKey : String
  contentHash : String
  severity : String
  privacyClass : PrivacyClass
  data : RecordDataV1
  deriving DecidableEq

/-- A committed segment: its batch id, and the records of its frames. -/
structure Segment where
  batchId : String
  records : List RecordEnvelope
  deriving DecidableEq

/-! ## Rows -/

structure RecordRow where
  schemaVersion : String
  recordId : String
  recordType : String
  name : String
  targetId : String
  occurredAt : Stamp
  observedAt : Stamp
  ingestedAt : Stamp
  expiresAt : Stamp
  sourceEventId : String
  sourceEntityId : String
  operationId : String
  dedupeKey : String
  contentHash : String
  severity : String
  privacyClass : PrivacyClass
  deriving DecidableEq

structure ItemRow where
  itemId : String
  fingerprint : String
  createdAt : Stamp
  targetId : String
  title : String
  severity : String
  priority : String
  actionability : String
  confidence : String
  privacyClass : PrivacyClass
  deriving DecidableEq

structure TransitionRow where
  transitionId : String
  itemId : String
  revision : Nat
  fromState : FeedbackState
  toState : FeedbackState
  occurredAt : Stamp
  actorType : String
  rationale : String
  deriving DecidableEq

/-- `_record_row`: an absent target or source is the empty string. -/
def recordRow (record : RecordEnvelope) : RecordRow where
  schemaVersion := record.schemaVersion
  recordId := record.recordId
  recordType := record.recordType
  name := record.name
  targetId := record.targetId.getD ""
  occurredAt := record.occurredAt
  observedAt := record.observedAt
  ingestedAt := record.ingestedAt
  expiresAt := record.expiresAt
  sourceEventId := record.sourceEventId.getD ""
  sourceEntityId := record.sourceEntityId.getD ""
  operationId := record.operationId
  dedupeKey := record.dedupeKey
  contentHash := record.contentHash
  severity := record.severity
  privacyClass := record.privacyClass

/-- `_feedback_item_row`. -/
def feedbackItemRow (data : FeedbackItemDataV1) : ItemRow where
  itemId := data.itemId
  fingerprint := data.fingerprint
  createdAt := data.createdAt
  targetId := data.targetId
  title := data.title
  severity := data.severity
  priority := data.priority
  actionability := data.actionability
  confidence := data.confidence
  privacyClass := data.privacyClass

/-- `_feedback_transition_row`. -/
def feedbackTransitionRow (data : FeedbackTransitionDataV1) : TransitionRow where
  transitionId := data.transitionId
  itemId := data.itemId
  revision := data.revision
  fromState := data.fromState
  toState := data.toState
  occurredAt := data.timestamp
  actorType := data.actorType
  rationale := data.rationale

/-- The row of a record in `feedback_items`, if it has one. -/
def itemRow? (record : RecordEnvelope) : Option ItemRow :=
  match record.data with
  | .feedbackItem data => some (feedbackItemRow data)
  | _ => none

/-- The row of a record in `feedback_transitions`, if it has one. -/
def transitionRow? (record : RecordEnvelope) : Option TransitionRow :=
  match record.data with
  | .feedbackTransition data => some (feedbackTransitionRow data)
  | _ => none

/-! ## The store -/

/-- The physical rows of the three tables, in the order of the inserts. -/
structure Store where
  records : List RecordRow
  feedbackItems : List ItemRow
  feedbackTransitions : List TransitionRow
  deriving DecidableEq

def Store.empty : Store := ⟨[], [], []⟩

/-- One `client.insert`; of no rows it does nothing. -/
inductive Insert where
  | records (rows : List RecordRow)
  | feedbackItems (rows : List ItemRow)
  | feedbackTransitions (rows : List TransitionRow)
  deriving DecidableEq

def Store.insert (store : Store) : Insert → Store
  | .records rows => { store with records := store.records ++ rows }
  | .feedbackItems rows => { store with feedbackItems := store.feedbackItems ++ rows }
  | .feedbackTransitions rows =>
      { store with feedbackTransitions := store.feedbackTransitions ++ rows }

/-- `ORDER BY (target_id, record_type, record_id)`; the version is `ingested_at`. -/
def RecordRow.sortKey (row : RecordRow) : String × String × String :=
  (row.targetId, row.recordType, row.recordId)

/-- `ORDER BY (target_id, item_id)`; the version is `created_at`. -/
def ItemRow.sortKey (row : ItemRow) : String × String := (row.targetId, row.itemId)

/-- `ORDER BY (item_id, transition_id)`; there is no version. -/
def TransitionRow.sortKey (row : TransitionRow) : String × String := (row.itemId, row.transitionId)

/-- `(revision, occurred_at, transition_id)`, compared from the left. -/
def TransitionRow.order (row : TransitionRow) : Nat ×ₗ Nat ×ₗ String :=
  toLex (row.revision, toLex (row.occurredAt, row.transitionId))

/-- A background merge: rows are dropped that a kept row replaces. -/
structure Store.Merges (store merged : Store) : Prop where
  records : Covers RecordRow.sortKey RecordRow.ingestedAt store.records merged.records
  feedbackItems :
    Covers ItemRow.sortKey ItemRow.createdAt store.feedbackItems merged.feedbackItems
  feedbackTransitions : Covers TransitionRow.sortKey (fun _ => ())
    store.feedbackTransitions merged.feedbackTransitions

/-- A row of `feedback_current`. -/
structure CurrentRow where
  itemId : String
  currentState : FeedbackState
  currentRevision : Nat
  lastTransitionAt : Stamp
  deriving DecidableEq

/-- The row of `feedback_current` of an item: its view groups by item and does not use `FINAL`. -/
def feedbackCurrent (rows : List TransitionRow) (itemId : String) : Option CurrentRow :=
  (latest TransitionRow.itemId TransitionRow.order rows itemId).map fun newest =>
    let group := rows.filter fun row => row.itemId = itemId
    { itemId
      currentState := newest.toState
      currentRevision := greatest TransitionRow.revision group
      lastTransitionAt := greatest TransitionRow.occurredAt group }

/-- What the store is read as: two tables with `FINAL`, and a view. -/
structure Content where
  records : String × String × String → Option RecordRow
  feedbackItems : String × String → Option ItemRow
  feedbackCurrent : String → Option CurrentRow

def Store.content (store : Store) : Content where
  records := latest RecordRow.sortKey RecordRow.ingestedAt store.records
  feedbackItems := latest ItemRow.sortKey ItemRow.createdAt store.feedbackItems
  feedbackCurrent := Export.feedbackCurrent store.feedbackTransitions

/-! ## The exporter -/

inductive ExportError where
  | storage (error : StorageError)
  | privacy (error : PrivacyError)
  deriving DecidableEq

structure ExportSummary where
  records : Nat
  feedbackItems : Nat
  feedbackTransitions : Nat
  deriving DecidableEq

/-- `require_egress` at `LOCAL_CLICKHOUSE`, whose matrix has every other class. -/
def requireEgress : PrivacyClass → Except PrivacyError Unit
  | .restricted =>
      .error ⟨"MH_EGRESS_RESTRICTED", "restricted input cannot reach persistence or egress"⟩
  | _ => .ok ()

/-- The three inserts of some records. -/
def inserts (records : List RecordEnvelope) : List Insert :=
  [.records (records.map recordRow), .feedbackItems (records.filterMap itemRow?),
    .feedbackTransitions (records.filterMap transitionRow?)]

/-- `export_records`. A call that is cut off has done the first inserts of the three. -/
def exportRecords (database : List Char) (records : List RecordEnvelope) (cut : Option Nat)
    (store : Store) : Except ExportError ExportSummary × Store :=
  if !Ownership.isIdentifier database then
    (.error (.storage ⟨"MH_STORAGE_CONFIG", "a bounded ClickHouse database identifier is required"⟩),
      store)
  else
    match records.forM fun record => requireEgress record.privacyClass with
    | .error e => (.error (.privacy e), store)
    | .ok () =>
        match cut with
        | some done =>
            (.error (.storage ⟨"MH_STORAGE_CLIENT", "a ClickHouse insert failed"⟩),
              ((inserts records).take done).foldl Store.insert store)
        | none =>
            (.ok ⟨records.length, (records.filterMap itemRow?).length,
                (records.filterMap transitionRow?).length⟩,
              (inserts records).foldl Store.insert store)

/-- `ClickHouseExporter.deliver`. -/
def deliver (database : List Char) (segment : Segment) (cut : Option Nat) (store : Store) :
    Except ExportError Unit × Store :=
  let (result, store) := exportRecords database segment.records cut store
  (result.map fun _ => (), store)

/-! ## Runs -/

/-- One call after the other, and merges whenever the server likes. -/
inductive Run (database : List Char) : Store → List (Segment × Option Nat) → Store → Prop where
  | done (store : Store) : Run database store [] store
  | call {store store' : Store} {segment : Segment} {cut : Option Nat}
      {calls : List (Segment × Option Nat)}
      (h : Run database (deliver database segment cut store).2 calls store') :
      Run database store ((segment, cut) :: calls) store'
  | merge {store merged store' : Store} {calls : List (Segment × Option Nat)}
      (hmerge : store.Merges merged) (h : Run database merged calls store') :
      Run database store calls store'

/-- A call that does all of its inserts and returns. -/
def Completes (database : List Char) (call : Segment × Option Nat) : Prop :=
  ∀ store, (deliver database call.1 call.2 store).1 = .ok ()

/-- The segments in the order of their batch ids. -/
def batchOrder (segments : List Segment) : List Segment :=
  segments.insertionSort fun a b => a.batchId ≤ b.batchId

/-- Every segment delivered once. -/
def deliverAll (database : List Char) (segments : List Segment) (store : Store) : Store :=
  segments.foldl (fun store segment => (deliver database segment none store).2) store

/-! ### What a call inserts -/

/-- The checks before the first insert. -/
def Authorized (database : List Char) (segment : Segment) : Prop :=
  Ownership.isIdentifier database = true ∧
    (segment.records.forM fun record => requireEgress record.privacyClass) = .ok ()

instance (database : List Char) (segment : Segment) : Decidable (Authorized database segment) :=
  inferInstanceAs (Decidable (_ ∧ _))

/-- The inserts that a call does. -/
def effects (database : List Char) (call : Segment × Option Nat) : List Insert :=
  if Authorized database call.1 then
    match call.2 with
    | some done => (inserts call.1.records).take done
    | none => inserts call.1.records
  else []

/-- **What a call leaves** is a prefix of its three inserts. -/
theorem deliver_store (database : List Char) (segment : Segment) (cut : Option Nat) (store : Store) :
    (deliver database segment cut store).2 =
      (effects database (segment, cut)).foldl Store.insert store := by
  unfold deliver exportRecords effects
  by_cases hauthorized : Authorized database segment
  · rw [if_pos hauthorized, hauthorized.1, hauthorized.2]
    cases cut <;> rfl
  · rw [if_neg hauthorized]
    cases hidentifier : Ownership.isIdentifier database with
    | false => rfl
    | true =>
        cases hegress : (segment.records.forM fun record => requireEgress record.privacyClass) with
        | error e => rfl
        | ok _ => exact absurd ⟨hidentifier, hegress⟩ hauthorized

theorem effects_subset (database : List Char) (call : Segment × Option Nat) :
    ∀ i ∈ effects database call, i ∈ inserts call.1.records := by
  intro i hi
  unfold effects at hi
  split at hi
  · split at hi
    · exact List.mem_of_mem_take hi
    · exact hi
  · cases hi

/-- A call that returns passed the checks and was not cut off. -/
theorem authorized_of_completes {database : List Char} {call : Segment × Option Nat}
    (h : Completes database call) : Authorized database call.1 ∧ call.2 = none := by
  obtain ⟨segment, cut⟩ := call
  have hok := h Store.empty
  unfold deliver exportRecords at hok
  cases hidentifier : Ownership.isIdentifier database with
  | false =>
      rw [hidentifier] at hok
      cases hok
  | true =>
      rw [hidentifier] at hok
      cases hegress : (segment.records.forM fun record => requireEgress record.privacyClass) with
      | error e =>
          rw [hegress] at hok
          cases hok
      | ok _ =>
          cases cut with
          | none => exact ⟨⟨hidentifier, hegress⟩, rfl⟩
          | some done =>
              rw [hegress] at hok
              cases hok

theorem effects_of_authorized {database : List Char} {segment : Segment}
    (h : Authorized database segment) :
    effects database (segment, none) = inserts segment.records := if_pos h

/-! ### What the inserts leave -/

/-- The same rows, whatever their order and multiplicity. -/
structure SameRows (store store' : Store) : Prop where
  records : ∀ r, r ∈ store'.records ↔ r ∈ store.records
  feedbackItems : ∀ r, r ∈ store'.feedbackItems ↔ r ∈ store.feedbackItems
  feedbackTransitions : ∀ r, r ∈ store'.feedbackTransitions ↔ r ∈ store.feedbackTransitions

/-- Rows that a table cannot tell apart by key and version are equal. -/
structure Store.Consistent (store : Store) : Prop where
  records : Replacing.Consistent RecordRow.sortKey RecordRow.ingestedAt store.records
  feedbackItems : Replacing.Consistent ItemRow.sortKey ItemRow.createdAt store.feedbackItems
  feedbackTransitions : ∀ r ∈ store.feedbackTransitions, ∀ r' ∈ store.feedbackTransitions,
    r.transitionId = r'.transitionId → r = r'

theorem Store.Merges.refl (store : Store) : store.Merges store :=
  ⟨.of_mem_iff fun _ => Iff.rfl, .of_mem_iff fun _ => Iff.rfl, .of_mem_iff fun _ => Iff.rfl⟩

theorem Store.Merges.trans {store merged merged' : Store} (h : store.Merges merged)
    (h' : merged.Merges merged') : store.Merges merged' :=
  ⟨h.records.trans h'.records, h.feedbackItems.trans h'.feedbackItems,
    h.feedbackTransitions.trans h'.feedbackTransitions⟩

/-- Rows inserted after a merge might have been inserted before it. -/
theorem Store.Merges.insert {store merged : Store} (h : store.Merges merged) (i : Insert) :
    (store.insert i).Merges (merged.insert i) := by
  cases i with
  | records rows => exact ⟨h.records.append rows, h.feedbackItems, h.feedbackTransitions⟩
  | feedbackItems rows => exact ⟨h.records, h.feedbackItems.append rows, h.feedbackTransitions⟩
  | feedbackTransitions rows => exact ⟨h.records, h.feedbackItems, h.feedbackTransitions.append rows⟩

theorem Store.Merges.foldl_insert {store merged : Store} (h : store.Merges merged)
    (is : List Insert) : (is.foldl Store.insert store).Merges (is.foldl Store.insert merged) := by
  induction is generalizing store merged with
  | nil => exact h
  | cons i is ih => exact ih (h.insert i)

/-- Inserts one after the other, and merges whenever the server likes. -/
inductive Writes : Store → List Insert → Store → Prop where
  | done (store : Store) : Writes store [] store
  | insert {store store' : Store} {i : Insert} {is : List Insert}
      (h : Writes (store.insert i) is store') : Writes store (i :: is) store'
  | merge {store merged store' : Store} {is : List Insert} (hmerge : store.Merges merged)
      (h : Writes merged is store') : Writes store is store'

theorem Writes.foldl_append {is js : List Insert} {store store' : Store}
    (h : Writes (is.foldl Store.insert store) js store') : Writes store (is ++ js) store' := by
  induction is generalizing store with
  | nil => exact h
  | cons i is ih => exact .insert (ih h)

/-- A run writes the inserts of its calls. -/
theorem Run.writes {database : List Char} {store store' : Store}
    {calls : List (Segment × Option Nat)} (h : Run database store calls store') :
    Writes store (calls.flatMap (effects database)) store' := by
  induction h with
  | done store => exact .done store
  | call h ih =>
      rw [deliver_store] at ih
      rw [List.flatMap_cons]
      exact ih.foldl_append
  | merge hmerge h ih => exact .merge hmerge ih

/-- **Whatever is merged meanwhile**, the inserts are only merged. -/
theorem Writes.merges {store store' : Store} {is : List Insert} (h : Writes store is store') :
    (is.foldl Store.insert store).Merges store' := by
  induction h with
  | done store => exact Store.Merges.refl store
  | insert h ih => exact ih
  | merge hmerge h ih => exact (hmerge.foldl_insert _).trans ih

theorem Store.Consistent.of_sameRows {store store' : Store} (h : store.Consistent)
    (hsame : SameRows store store') : store'.Consistent := by
  refine ⟨fun r hr r' hr' => ?_, fun r hr r' hr' => ?_, fun r hr r' hr' => ?_⟩
  · exact h.records r ((hsame.records r).mp hr) r' ((hsame.records r').mp hr')
  · exact h.feedbackItems r ((hsame.feedbackItems r).mp hr) r' ((hsame.feedbackItems r').mp hr')
  · exact h.feedbackTransitions r ((hsame.feedbackTransitions r).mp hr) r'
      ((hsame.feedbackTransitions r').mp hr')

/-! ### What is read -/

/-- Where a transition id names one transition, merging drops none. -/
theorem mem_feedbackTransitions_of_merges {store merged : Store} (hconsistent : store.Consistent)
    (h : store.Merges merged) (r : TransitionRow) :
    r ∈ merged.feedbackTransitions ↔ r ∈ store.feedbackTransitions := by
  constructor
  · exact h.feedbackTransitions.subset r
  · intro hr
    obtain ⟨r', hr', hkey, -⟩ := h.feedbackTransitions.cover r hr
    have hid : r'.transitionId = r.transitionId := congrArg Prod.snd hkey
    have hsame := hconsistent.feedbackTransitions r' (h.feedbackTransitions.subset r' hr') r hr hid
    rwa [hsame] at hr'

theorem feedbackCurrent_eq_of_mem_iff {rows rows' : List TransitionRow}
    (hconsistent : ∀ r ∈ rows, ∀ r' ∈ rows, r.transitionId = r'.transitionId → r = r')
    (h : ∀ r, r ∈ rows' ↔ r ∈ rows) (itemId : String) :
    feedbackCurrent rows' itemId = feedbackCurrent rows itemId := by
  have horder : Replacing.Consistent TransitionRow.itemId TransitionRow.order rows := by
    intro r hr r' hr' _ heq
    -- the order ends in the transition id
    have hlex : (r.revision, toLex (r.occurredAt, r.transitionId)) =
        (r'.revision, toLex (r'.occurredAt, r'.transitionId)) := toLex.injective heq
    have htail := toLex.injective (Prod.mk.inj hlex).2
    exact hconsistent r hr r' hr' (Prod.mk.inj htail).2
  have hgroup : ∀ r, (r ∈ rows'.filter fun row => row.itemId = itemId) ↔
      r ∈ rows.filter fun row => row.itemId = itemId := by
    intro r
    rw [List.mem_filter, List.mem_filter, h r]
  unfold feedbackCurrent
  rw [latest_eq_of_mem_iff horder h itemId]
  dsimp only
  rw [greatest_eq_of_mem_iff hgroup, greatest_eq_of_mem_iff hgroup]

/-- **Merging changes nothing that is read.** -/
theorem content_of_merges {store merged : Store} (hconsistent : store.Consistent)
    (h : store.Merges merged) : merged.content = store.content := by
  unfold Store.content
  congr 1
  · exact funext (latest_eq_of_covers hconsistent.records h.records)
  · exact funext (latest_eq_of_covers hconsistent.feedbackItems h.feedbackItems)
  · exact funext (feedbackCurrent_eq_of_mem_iff hconsistent.feedbackTransitions
      (mem_feedbackTransitions_of_merges hconsistent h))

/-- **Nor does another order or multiplicity.** -/
theorem content_of_sameRows {store store' : Store} (hconsistent : store.Consistent)
    (h : SameRows store store') : store'.content = store.content := by
  unfold Store.content
  congr 1
  · exact funext (latest_eq_of_mem_iff hconsistent.records h.records)
  · exact funext (latest_eq_of_mem_iff hconsistent.feedbackItems h.feedbackItems)
  · exact funext (feedbackCurrent_eq_of_mem_iff hconsistent.feedbackTransitions
      h.feedbackTransitions)

/-! ## Delivering again -/

/-- The rows of the store and those of some segments. -/
def withRows (store : Store) (segments : List Segment) : Store :=
  (segments.flatMap fun segment => inserts segment.records).foldl Store.insert store

/-- Only which inserts happened says which rows there are. -/
theorem sameRows_of_mem_iff (store : Store) {is js : List Insert} (h : ∀ i, i ∈ js ↔ i ∈ is) :
    SameRows (is.foldl Store.insert store) (js.foldl Store.insert store) := by
  -- of each table: the rows there were, and those of the inserts into it
  have hrecords : ∀ (is : List Insert) (store : Store) r, r ∈ (is.foldl Store.insert store).records ↔
      r ∈ store.records ∨ ∃ rows, Insert.records rows ∈ is ∧ r ∈ rows := by
    intro is
    induction is with
    | nil => simp
    | cons i is ih =>
        intro store r
        rw [List.foldl_cons, ih]
        cases i <;> simp [Store.insert, or_assoc]
  have hitems : ∀ (is : List Insert) (store : Store) r,
      r ∈ (is.foldl Store.insert store).feedbackItems ↔
        r ∈ store.feedbackItems ∨ ∃ rows, Insert.feedbackItems rows ∈ is ∧ r ∈ rows := by
    intro is
    induction is with
    | nil => simp
    | cons i is ih =>
        intro store r
        rw [List.foldl_cons, ih]
        cases i <;> simp [Store.insert, or_assoc]
  have htransitions : ∀ (is : List Insert) (store : Store) r,
      r ∈ (is.foldl Store.insert store).feedbackTransitions ↔
        r ∈ store.feedbackTransitions ∨ ∃ rows, Insert.feedbackTransitions rows ∈ is ∧ r ∈ rows := by
    intro is
    induction is with
    | nil => simp
    | cons i is ih =>
        intro store r
        rw [List.foldl_cons, ih]
        cases i <;> simp [Store.insert, or_assoc]
  exact ⟨fun r => by simp only [hrecords, h], fun r => by simp only [hitems, h],
    fun r => by simp only [htransitions, h]⟩

theorem deliverAll_eq (database : List Char) (segments : List Segment) (store : Store) :
    deliverAll database segments store =
      ((segments.map fun segment => (segment, none)).flatMap (effects database)).foldl
        Store.insert store := by
  induction segments generalizing store with
  | nil => rfl
  | cons segment segments ih =>
      unfold deliverAll at ih ⊢
      rw [List.foldl_cons, ih, List.map_cons, List.flatMap_cons, List.foldl_append, deliver_store]

/-- Calls that deliver every segment completely insert the rows of the segments. -/
theorem mem_effects_iff {database : List Char} {segments : List Segment}
    {calls : List (Segment × Option Nat)} (hcalls : ∀ call ∈ calls, call.1 ∈ segments)
    (hcomplete : ∀ segment ∈ segments, (segment, none) ∈ calls ∧ Authorized database segment)
    (i : Insert) :
    i ∈ calls.flatMap (effects database) ↔
      i ∈ segments.flatMap fun segment => inserts segment.records := by
  rw [List.mem_flatMap, List.mem_flatMap]
  constructor
  · rintro ⟨call, hcall, hi⟩
    exact ⟨call.1, hcalls call hcall, effects_subset database call i hi⟩
  · rintro ⟨segment, hsegment, hi⟩
    obtain ⟨hcall, hauthorized⟩ := hcomplete segment hsegment
    refine ⟨(segment, none), hcall, ?_⟩
    rwa [effects_of_authorized hauthorized]

section Redelivery

variable {database : List Char} {segments : List Segment} {calls : List (Segment × Option Nat)}
variable {store store' : Store}

/-- **Calls whose inserts interleave** leave the content of one delivery each. -/
theorem concurrent_content {is : List Insert} (hrows : (withRows store segments).Consistent)
    (hcalls : ∀ call ∈ calls, call.1 ∈ segments)
    (hcomplete : ∀ segment ∈ segments, ∃ call ∈ calls, call.1 = segment ∧ Completes database call)
    (hinterleaved : is.Perm (calls.flatMap (effects database))) (hwrites : Writes store is store') :
    store'.content = (deliverAll database (batchOrder segments) store).content := by
  have hdelivered : ∀ segment ∈ segments, (segment, none) ∈ calls ∧ Authorized database segment := by
    intro segment hsegment
    obtain ⟨⟨_, cut⟩, hcall, rfl, hcompletes⟩ := hcomplete segment hsegment
    obtain ⟨hauthorized, rfl⟩ := authorized_of_completes hcompletes
    exact ⟨hcall, hauthorized⟩
  have horder : ∀ segment, segment ∈ batchOrder segments ↔ segment ∈ segments :=
    fun _ => List.mem_insertionSort _
  -- the calls and the reference insert the rows of the segments
  have hsame : SameRows (withRows store segments) (is.foldl Store.insert store) :=
    sameRows_of_mem_iff store fun i =>
      hinterleaved.mem_iff.trans (mem_effects_iff hcalls hdelivered i)
  have hreference : SameRows (withRows store segments)
      (deliverAll database (batchOrder segments) store) := by
    rw [deliverAll_eq]
    refine sameRows_of_mem_iff store fun i =>
      (mem_effects_iff ?_ (fun segment hsegment => ?_) i)
    · intro call hcall
      obtain ⟨segment, hsegment, rfl⟩ := List.mem_map.mp hcall
      exact (horder segment).mp hsegment
    · exact ⟨List.mem_map_of_mem ((horder segment).mpr hsegment), (hdelivered segment hsegment).2⟩
  calc store'.content = (is.foldl Store.insert store).content :=
        content_of_merges (hrows.of_sameRows hsame) hwrites.merges
    _ = (withRows store segments).content := content_of_sameRows hrows hsame
    _ = (deliverAll database (batchOrder segments) store).content :=
        (content_of_sameRows hrows hreference).symm

/-- **Delivering again changes no logical state**: whatever the order and the number of the calls,
and wherever the others were cut off. -/
theorem redelivery_content (hrows : (withRows store segments).Consistent)
    (hcalls : ∀ call ∈ calls, call.1 ∈ segments)
    (hcomplete : ∀ segment ∈ segments, ∃ call ∈ calls, call.1 = segment ∧ Completes database call)
    (hrun : Run database store calls store') :
    store'.content = (deliverAll database (batchOrder segments) store).content :=
  concurrent_content hrows hcalls hcomplete (List.Perm.refl _) hrun.writes

/-! ### A record ingested again, and a call cut off -/

def sampleRecord (recordId : String) (ingestedAt : Stamp) (data : RecordDataV1) :
    RecordEnvelope where
  schemaVersion := "1.0"
  recordId := recordId
  recordType := "event"
  name := "deploy"
  targetId := some "web"
  occurredAt := 0
  observedAt := 0
  ingestedAt := ingestedAt
  expiresAt := 10
  sourceEventId := none
  sourceEntityId := none
  operationId := "op"
  dedupeKey := "d"
  contentHash := "c"
  severity := "info"
  privacyClass := .internal
  data := data

def sampleItem : FeedbackItemDataV1 :=
  ⟨"i", "f", 1, "web", "slow", "info", "low", "manual", "high", .internal⟩

def sampleTransition (transitionId : String) (revision : Nat) (fromState toState : FeedbackState) :
    FeedbackTransitionDataV1 :=
  ⟨transitionId, "i", revision, fromState, toState, revision, "operator", "r"⟩

/-- The later segment ingests a record of the earlier one again, and moves the item of the earlier one
a state further. -/
def sampleSegments : List Segment :=
  [⟨"b", [sampleRecord "mh_r" 2 .other,
      sampleRecord "mh_u" 2 (.feedbackTransition (sampleTransition "t2" 2 .accepted .shipped))]⟩,
    ⟨"a", [sampleRecord "mh_r" 1 .other, sampleRecord "mh_i" 1 (.feedbackItem sampleItem),
      sampleRecord "mh_t" 1 (.feedbackTransition (sampleTransition "t1" 1 .open .accepted))]⟩]

/-- Each segment is cut off before its feedback, cut off before its transitions, and delivered. -/
def sampleCalls : List (Segment × Option Nat) :=
  sampleSegments.flatMap fun segment => [(segment, some 1), (segment, some 2), (segment, none)]

theorem sampleSegments_consistent : (withRows Store.empty sampleSegments).Consistent := by
  constructor
  · unfold Consistent
    decide +kernel
  · unfold Consistent
    decide +kernel
  · decide +kernel

/-- The later segment comes first; the item is found in the state that it left it in. -/
theorem redelivery_content_sample : ∃ store',
    Run "db".toList Store.empty sampleCalls store' ∧
      store'.content =
        (deliverAll "db".toList (batchOrder sampleSegments) Store.empty).content ∧
      store'.content.feedbackCurrent "i" = some ⟨"i", .shipped, 2, 2⟩ := by
  have hcalls : ∀ call ∈ sampleCalls, call.1 ∈ sampleSegments := by
    intro call hcall
    obtain ⟨segment, hsegment, hcall⟩ := List.mem_flatMap.mp hcall
    simp only [List.mem_cons, List.not_mem_nil, or_false] at hcall
    rcases hcall with rfl | rfl | rfl <;> exact hsegment
  have hcomplete : ∀ segment ∈ sampleSegments, ∃ call ∈ sampleCalls,
      call.1 = segment ∧ Completes "db".toList call := by
    intro segment hsegment
    have hmem : (segment, none) ∈ sampleCalls :=
      List.mem_flatMap.mpr ⟨segment, hsegment, by simp⟩
    refine ⟨(segment, none), hmem, rfl, fun store => ?_⟩
    rcases List.mem_pair.mp hsegment with rfl | rfl <;> rfl
  have hrun : Run "db".toList Store.empty sampleCalls _ :=
    .call (.call (.call (.call (.call (.call (.done _))))))
  have hcurrent : (sampleCalls.foldl (fun store call => (deliver "db".toList call.1 call.2 store).2)
      Store.empty).content.feedbackCurrent "i" = some ⟨"i", .shipped, 2, 2⟩ := by
    decide +kernel
  exact ⟨_, hrun, redelivery_content sampleSegments_consistent hcalls hcomplete hrun, hcurrent⟩

end Redelivery

end Milhouse.Export
