import Milhouse.Spool.Segment
import Milhouse.State.Database
import Mathlib.Data.List.Sort

/-!
# Milhouse — the segment ledger

The `_segments` rows, their delivery rows, the retirement tombstones and the source cursors that
reference segments, with the transactions the spool runs on them. A delivery row is keyed by its
segment and exporter; `Ledger.required` is the set of exporters a segment has rows for, which is
what a durable file attests.
-/

namespace Milhouse

/-! ## Rows -/

inductive Origin where
  | committed
  | reconciled
  deriving DecidableEq, Repr

inductive DeliveryStatus where
  | pending
  | delivered
  | failed
  deriving DecidableEq, Repr

/-- A row of `_segments`, under its `batch_id`. -/
structure SegmentRow where
  day : Day
  schemaVersion : Nat
  frameVersion : Nat
  configGeneration : String
  scope : Scope
  targetId : Option String
  privacyClass : PrivacyClass
  retentionDays : Nat
  recordCount : Nat
  contentSha256 : String
  byteSize : Nat
  fileSha256 : String
  committedAt : Stamp
  origin : Origin
  deriving DecidableEq, Repr

/-- A segment's ledger row plus its delivery rows. -/
structure SegmentRecord extends SegmentRow where
  batchId : String
  exporters : List (String × DeliveryStatus)
  deriving DecidableEq, Repr

/-- A row of `_retirements`, under its `batch_id`. -/
structure Retirement where
  day : Day
  fileSha256 : String
  retiredAt : Stamp
  deriving DecidableEq, Repr

/-- A row of `_cursors`, under its `source`. -/
structure CursorRow where
  position : String
  batchId : Option String
  revision : Nat
  updatedAt : Stamp
  deriving DecidableEq, Repr

/-! ## Tables and transactions -/

/-- The tables of the spool ledger. -/
structure Ledger where
  segments : Table String SegmentRow
  exporters : Table (String × String) DeliveryStatus
  retirements : Table String Retirement
  cursors : Table String CursorRow

def Ledger.empty : Ledger := ⟨∅, ∅, ∅, ∅⟩

/-- `load_exporters`: the delivery rows of one segment, `ORDER BY exporter_id`. -/
def Ledger.loadExporters (t : Ledger) (batchId : String) : List (String × DeliveryStatus) :=
  (t.exporters.entries.filterMap fun e => if e.1.1 = batchId then some (e.1.2, e.2) else none)
    |>.insertionSort fun a b => a.1 ≤ b.1

/-- The validated record of one row. -/
def Ledger.record (t : Ledger) (batchId : String) (row : SegmentRow) : SegmentRecord :=
  { toSegmentRow := row, batchId, exporters := t.loadExporters batchId }

/-- `list_segment_records`, and the rows of `_ledger_index`, `ORDER BY batch_id`. -/
def Ledger.records (t : Ledger) : List SegmentRecord :=
  (t.segments.entries.map fun e => t.record e.1 e.2).insertionSort fun a b => a.batchId ≤ b.batchId

/-- `insert_segment_row` in one transaction; `none` is the primary-key violation. -/
def Ledger.insertSegment (t : Ledger) (r : SegmentRecord) : Option Ledger :=
  if (t.segments.lookup r.batchId).isSome then none
  else some { t with
    segments := t.segments.insert r.batchId r.toSegmentRow
    exporters := r.exporters.foldl (fun x e => x.insert (r.batchId, e.1) e.2) t.exporters }

/-- Delete the delivery rows of one segment. -/
def Ledger.dropExporters (t : Ledger) (batchId : String) : Table (String × String) DeliveryStatus :=
  (t.loadExporters batchId).foldl (fun x e => x.erase (batchId, e.1)) t.exporters

/-- Detach the cursors that reference one segment: `SET batch_id = NULL`. -/
def Ledger.detachCursors (t : Ledger) (batchId : String) : Table String CursorRow :=
  (t.cursors.entries.filter fun e => e.2.batchId = some batchId).foldl
    (fun x e => x.insert e.1 { e.2 with batchId := none }) t.cursors

/-- The transaction of `_prune_segment`: detach the cursors, delete the delivery rows and the row,
insert the tombstone; `none` is the primary-key violation of an existing tombstone. -/
def Ledger.pruneSegment (t : Ledger) (r : SegmentRecord) (now : Stamp) : Option Ledger :=
  if (t.retirements.lookup r.batchId).isSome then none
  else some {
    segments := t.segments.erase r.batchId
    exporters := t.dropExporters r.batchId
    retirements := t.retirements.insert r.batchId ⟨r.day, r.fileSha256, now⟩
    cursors := t.detachCursors r.batchId }

/-- What the compare-and-set of a delivery status found: `_CAS_ADVANCED`, `_CAS_ALREADY`,
`_CAS_GONE`. -/
inductive CasResult where
  | advanced
  | already
  | gone
  deriving DecidableEq, Repr

/-- The transaction of `_advance_status_locked`: `UPDATE … WHERE delivery_status != 'delivered'`. -/
def Ledger.advanceStatus (t : Ledger) (batchId exporterId : String) (status : DeliveryStatus) :
    CasResult × Ledger :=
  match t.exporters.lookup (batchId, exporterId) with
  | none => (.gone, t)
  | some .delivered => (.already, t)
  | some _ => (.advanced, { t with exporters := t.exporters.insert (batchId, exporterId) status })

/-- The transaction of `advance_cursor`: a committed segment and the expected revision. -/
def Ledger.advanceCursor (t : Ledger) (source position batchId : String) (now : Stamp)
    (expectedRevision : Nat) : Except StateError Ledger :=
  if (t.segments.lookup batchId).isNone then
    .error ⟨"MH_STATE_CURSOR_SEGMENT", "a cursor advances only against a committed segment"⟩
  else
    let current := ((t.cursors.lookup source).map (·.revision)).getD 0
    if current ≠ expectedRevision then
      .error ⟨"MH_STATE_CURSOR_CONFLICT", "the cursor was advanced concurrently"⟩
    else .ok { t with
      cursors := t.cursors.insert source ⟨position, some batchId, current + 1, now⟩ }

/-! ## What the transactions change -/

section Folds

variable {κ ν α : Type} [DecidableEq κ]

/-- Inserting rows under other keys leaves a key alone. -/
theorem lookup_foldl_insert_ne {xs : List α} {key : α → κ} {value : α → ν} {k : κ}
    (hne : ∀ x ∈ xs, key x ≠ k) (t : Table κ ν) :
    (xs.foldl (fun t x => t.insert (key x) (value x)) t).lookup k = t.lookup k := by
  induction xs generalizing t with
  | nil => rfl
  | cons x xs ih =>
      rw [List.foldl_cons, ih fun y hy => hne y (List.mem_cons_of_mem _ hy)]
      exact AList.lookup_insert_ne (hne x (by simp)).symm

/-- After inserting rows, a key has one if it was inserted or had one before. -/
theorem isSome_lookup_foldl_insert {xs : List α} {key : α → κ} {value : α → ν} {k : κ}
    (t : Table κ ν) :
    ((xs.foldl (fun t x => t.insert (key x) (value x)) t).lookup k).isSome ↔
      (∃ x ∈ xs, key x = k) ∨ (t.lookup k).isSome := by
  induction xs generalizing t with
  | nil => simp
  | cons x xs ih =>
      rw [List.foldl_cons, ih]
      by_cases h : key x = k
      · subst h; simp
      · rw [AList.lookup_insert_ne (Ne.symm h)]
        simp [h]

/-- Erasing a key among others removes it. -/
theorem lookup_foldl_erase_mem {xs : List α} {g : α → κ} {k : κ} (hmem : ∃ x ∈ xs, g x = k)
    (t : Table κ ν) : (xs.foldl (fun t x => t.erase (g x)) t).lookup k = none := by
  have hnone : ∀ (ys : List α) (u : Table κ ν), u.lookup k = none →
      (ys.foldl (fun t x => t.erase (g x)) u).lookup k = none := by
    intro ys
    induction ys with
    | nil => exact fun u hu => hu
    | cons y ys ih =>
        intro u hu
        refine ih _ ?_
        show (u.erase (g y)).lookup k = none
        by_cases h : g y = k
        · rw [h, AList.lookup_erase]
        · rw [AList.lookup_erase_ne (Ne.symm h), hu]
  induction xs generalizing t with
  | nil => obtain ⟨x, hx, -⟩ := hmem; cases hx
  | cons x xs ih =>
      rw [List.foldl_cons]
      by_cases h : g x = k
      · exact hnone xs _ (by rw [h]; exact AList.lookup_erase k t)
      · obtain ⟨y, hy, hyk⟩ := hmem
        rcases List.mem_cons.mp hy with rfl | hy
        · exact absurd hyk h
        · exact ih ⟨y, hy, hyk⟩ _

/-- Erasing other keys leaves a key alone. -/
theorem lookup_foldl_erase_ne {xs : List α} {key : α → κ} {k : κ} (hne : ∀ x ∈ xs, key x ≠ k)
    (t : Table κ ν) : (xs.foldl (fun t x => t.erase (key x)) t).lookup k = t.lookup k := by
  induction xs generalizing t with
  | nil => rfl
  | cons x xs ih =>
      rw [List.foldl_cons, ih fun y hy => hne y (List.mem_cons_of_mem _ hy)]
      exact AList.lookup_erase_ne (hne x (by simp)).symm

end Folds

namespace Ledger

variable {t t' : Ledger} {r : SegmentRecord} {b e : String} {now : Stamp}

/-- Whether a segment has a delivery row for an exporter. -/
def required (t : Ledger) (batchId exporter : String) : Prop :=
  (t.exporters.lookup (batchId, exporter)).isSome

theorem mem_loadExporters {st : DeliveryStatus} :
    (e, st) ∈ t.loadExporters b ↔ t.exporters.lookup (b, e) = some st := by
  rw [← Option.mem_def, AList.mem_lookup_iff]
  unfold loadExporters
  rw [List.mem_insertionSort]
  simp only [List.mem_filterMap, Option.ite_none_right_eq_some, Option.some.injEq, Prod.mk.injEq]
  constructor
  · rintro ⟨⟨⟨b', e'⟩, st'⟩, hmem, rfl, rfl, rfl⟩
    exact hmem
  · exact fun hmem => ⟨⟨(b, e), st⟩, hmem, rfl, rfl, rfl⟩

/-- The exporters of a loaded record are the required ones. -/
theorem mem_loadExporters_map : e ∈ (t.loadExporters b).map (·.1) ↔ t.required b e := by
  unfold required
  rw [Option.isSome_iff_exists]
  constructor
  · intro h
    obtain ⟨⟨e', st⟩, hmem, rfl⟩ := List.mem_map.mp h
    exact ⟨st, mem_loadExporters.mp hmem⟩
  · rintro ⟨st, hst⟩
    exact List.mem_map.mpr ⟨(e, st), mem_loadExporters.mpr hst, rfl⟩

/-- The records are the rows, each with its delivery rows. -/
theorem mem_records : r ∈ t.records ↔
    t.segments.lookup r.batchId = some r.toSegmentRow ∧ r = t.record r.batchId r.toSegmentRow := by
  unfold records
  rw [List.mem_insertionSort, List.mem_map]
  constructor
  · rintro ⟨⟨b, row⟩, hmem, rfl⟩
    exact ⟨AList.mem_lookup_iff.mpr hmem, rfl⟩
  · rintro ⟨hrow, hr⟩
    exact ⟨⟨r.batchId, r.toSegmentRow⟩, AList.mem_lookup_iff.mp hrow, hr.symm⟩

/-- An insert finds no row and adds the record's. -/
theorem insertSegment_eq (h : t.insertSegment r = some t') :
    t.segments.lookup r.batchId = none ∧
      t'.segments = t.segments.insert r.batchId r.toSegmentRow ∧
      t'.retirements = t.retirements ∧ t'.cursors = t.cursors := by
  unfold insertSegment at h
  split at h
  · cases h
  · rename_i hnone
    obtain rfl := Option.some.inj h
    exact ⟨by simpa using hnone, rfl, rfl, rfl⟩

theorem insertSegment_required (h : t.insertSegment r = some t') :
    t'.required b e ↔ (r.batchId = b ∧ e ∈ r.exporters.map (·.1)) ∨ t.required b e := by
  unfold insertSegment at h
  split at h
  · cases h
  · obtain rfl := Option.some.inj h
    unfold required
    rw [isSome_lookup_foldl_insert]
    simp only [Prod.mk.injEq, List.mem_map]
    constructor
    · rintro (⟨x, hx, rfl, rfl⟩ | h)
      · exact Or.inl ⟨rfl, x, hx, rfl⟩
      · exact Or.inr h
    · rintro (⟨rfl, x, hx, rfl⟩ | h)
      · exact Or.inl ⟨x, hx, rfl, rfl⟩
      · exact Or.inr h

/-- A prune finds no tombstone, deletes the row and inserts the tombstone. -/
theorem pruneSegment_eq (h : t.pruneSegment r now = some t') :
    t.retirements.lookup r.batchId = none ∧ t'.segments = t.segments.erase r.batchId ∧
      t'.retirements = t.retirements.insert r.batchId ⟨r.day, r.fileSha256, now⟩ := by
  unfold pruneSegment at h
  split at h
  · cases h
  · rename_i hnone
    obtain rfl := Option.some.inj h
    exact ⟨by simpa using hnone, rfl, rfl⟩

/-- After a prune the segment has no delivery row. -/
theorem pruneSegment_dropped (h : t.pruneSegment r now = some t') : ¬ t'.required r.batchId e := by
  unfold pruneSegment at h
  split at h
  · cases h
  · obtain rfl := Option.some.inj h
    simp only [required, dropExporters]
    cases hrow : t.exporters.lookup (r.batchId, e) with
    | none =>
        rw [lookup_foldl_erase_ne, hrow]
        · simp
        · rintro ⟨e', st⟩ hmem heq
          obtain ⟨-, rfl⟩ := Prod.mk.inj heq
          rw [mem_loadExporters.mp hmem] at hrow
          cases hrow
    | some st =>
        rw [lookup_foldl_erase_mem (g := fun x => (r.batchId, x.1))
          ⟨(e, st), mem_loadExporters.mpr hrow, rfl⟩]
        exact Bool.false_ne_true

/-- The compare-and-set changes no row's key. -/
theorem advanceStatus_required {b' e' : String} {status : DeliveryStatus} :
    (t.advanceStatus b e status).2.required b' e' ↔ t.required b' e' := by
  unfold advanceStatus
  split
  · rfl
  · rfl
  · rename_i st _ hrow
    unfold required
    by_cases h : (b', e') = (b, e)
    · rw [h]; simp [hrow]
    · rw [AList.lookup_insert_ne h]

theorem advanceStatus_tables {status : DeliveryStatus} :
    (t.advanceStatus b e status).2.segments = t.segments ∧
      (t.advanceStatus b e status).2.retirements = t.retirements ∧
      (t.advanceStatus b e status).2.cursors = t.cursors := by
  unfold advanceStatus
  split <;> exact ⟨rfl, rfl, rfl⟩

/-- A delivered row is never overwritten. -/
theorem advanceStatus_delivered {b' e' : String} {status : DeliveryStatus}
    (h : t.exporters.lookup (b', e') = some .delivered) :
    (t.advanceStatus b e status).2.exporters.lookup (b', e') = some .delivered := by
  unfold advanceStatus
  split
  · exact h
  · exact h
  · rename_i st hne hrow
    have hkey : (b', e') ≠ (b, e) := by
      intro heq
      rw [← heq, h] at hrow
      exact hne (Option.some.inj hrow).symm
    show (t.exporters.insert (b, e) status).lookup (b', e') = some .delivered
    rw [AList.lookup_insert_ne hkey, h]

/-- The compare-and-set that advanced found the row, not delivered, and wrote the status. -/
theorem advanceStatus_advanced {status : DeliveryStatus}
    (h : (t.advanceStatus b e status).1 = .advanced) :
    t.exporters.lookup (b, e) ≠ some .delivered ∧
      (t.advanceStatus b e status).2.exporters.lookup (b, e) = some status := by
  unfold advanceStatus at h ⊢
  split at h
  · cases h
  · cases h
  · rename_i st hne hrow
    have hrow' : t.exporters.lookup (b, e) = some st := hrow
    refine ⟨fun heq => hne (Option.some.inj (hrow'.symm.trans heq)), ?_⟩
    cases st with
    | delivered => exact absurd rfl hne
    | pending => exact AList.lookup_insert _
    | failed => exact AList.lookup_insert _

/-- An insert under another key leaves delivery rows alone. -/
theorem insertSegment_exporter (h : t.insertSegment r = some t') (hb : r.batchId ≠ b) :
    t'.exporters.lookup (b, e) = t.exporters.lookup (b, e) := by
  unfold insertSegment at h
  split at h
  · cases h
  · obtain rfl := Option.some.inj h
    exact lookup_foldl_insert_ne (fun x _ heq => hb (Prod.mk.inj heq).1) _

/-- A prune leaves the delivery rows of other segments alone. -/
theorem pruneSegment_exporter (h : t.pruneSegment r now = some t') (hb : r.batchId ≠ b) :
    t'.exporters.lookup (b, e) = t.exporters.lookup (b, e) := by
  unfold pruneSegment at h
  split at h
  · cases h
  · obtain rfl := Option.some.inj h
    exact lookup_foldl_erase_ne (fun x _ heq => hb (Prod.mk.inj heq).1) _

theorem pruneSegment_required (h : t.pruneSegment r now = some t') (hb : r.batchId ≠ b) :
    t'.required b e ↔ t.required b e := by
  unfold required
  rw [pruneSegment_exporter h hb]

/-- A cursor advance changes the cursors only. -/
theorem advanceCursor_tables {source position : String} {revision : Nat}
    (h : t.advanceCursor source position b now revision = .ok t') :
    t'.segments = t.segments ∧ t'.exporters = t.exporters ∧ t'.retirements = t.retirements := by
  unfold advanceCursor at h
  split at h
  · cases h
  · dsimp only at h
    split at h
    · cases h
    · obtain rfl := Except.ok.inj h
      exact ⟨rfl, rfl, rfl⟩

/-! ## The foreign key of the delivery rows -/

/-- Every delivery row belongs to a segment row. -/
def Sound (t : Ledger) : Prop :=
  ∀ b e, t.required b e → (t.segments.lookup b).isSome

theorem sound_empty : Ledger.empty.Sound := by
  intro b e h
  simp [required, empty] at h

theorem Sound.insertSegment (hs : t.Sound) (h : t.insertSegment r = some t') : t'.Sound := by
  obtain ⟨-, hsegments, -⟩ := insertSegment_eq h
  intro b e hreq
  rw [hsegments]
  by_cases hb : b = r.batchId
  · rw [hb]; simp
  · rw [AList.lookup_insert_ne hb]
    rcases (insertSegment_required h).mp hreq with ⟨heq, -⟩ | hold
    · exact absurd heq.symm hb
    · exact hs b e hold

theorem Sound.pruneSegment (hs : t.Sound) (h : t.pruneSegment r now = some t') : t'.Sound := by
  obtain ⟨-, hsegments, -⟩ := pruneSegment_eq h
  intro b e hreq
  have hb : r.batchId ≠ b := by
    rintro rfl
    exact pruneSegment_dropped h hreq
  rw [hsegments, AList.lookup_erase_ne hb.symm]
  exact hs b e ((pruneSegment_required h hb).mp hreq)

/-- In a sound ledger the delivery rows of an inserted record are exactly the record's. -/
theorem Sound.required_insert (hs : t.Sound) (h : t.insertSegment r = some t') :
    t'.required r.batchId e ↔ e ∈ r.exporters.map (·.1) := by
  obtain ⟨hnone, -⟩ := insertSegment_eq h
  rw [insertSegment_required h]
  constructor
  · rintro (⟨-, he⟩ | hold)
    · exact he
    · have := hs _ _ hold
      rw [hnone] at this
      cases this
  · exact fun he => Or.inl ⟨rfl, he⟩

end Ledger

end Milhouse
