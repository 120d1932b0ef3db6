import Milhouse.Spool.Durability
import Milhouse.Spool.DeliveryPhase

/-!
# Milhouse — the delivery ledger over every run

The barrier is what makes the delivery ledger a state machine: while a delivery is in progress no
section prunes (`Barrier.lasts`), so the row it reloaded stays, and a delivered row stays delivered.
On top of that each delivery carries its `Phase`: a delivery that advanced a row and has not yet
reported it is the only one that can report it, because the compare-and-set found the row not
delivered.

* `Audit` — what the history of a store says of its delivery rows;
* **`delivery_ledger`** — over every run, delivered rows stay delivered until a prune, at most one
  attempt reports one row as delivered, and every such report follows a hand-over of that row's own
  unexpired frames that returned normally.
-/

namespace Milhouse

open Interaction Interaction.Prog Transition

/-- A prune of the segment is among the events. -/
def PrunedIn (events : List Event) (b : String) : Prop :=
  ∃ r now, .pruned r now ∈ events ∧ r.batchId = b

/-- A prune among some events is one among more of them. -/
theorem PrunedIn.mono {events events' : List Event} {b : String} (h : PrunedIn events b)
    (hsub : ∀ x ∈ events, x ∈ events') : PrunedIn events' b := by
  obtain ⟨r, now, hmem, hb⟩ := h
  exact ⟨r, now, hsub _ hmem, hb⟩

/-! ## What the ledger keeps -/

/-- The row of the segment and its delivered rows are still there. -/
structure Lasts (b : String) (s s' : SpoolState) : Prop where
  row : ∀ row, s.ledger.segments.lookup b = some row → s'.ledger.segments.lookup b = some row
  delivered : ∀ e, s.ledger.exporters.lookup (b, e) = some .delivered →
    s'.ledger.exporters.lookup (b, e) = some .delivered

section Lasting

variable {s s' : SpoolState} {b : String} {o : SpoolOp}

/-- An operation that leaves the ledger lets every delivered status last. -/
theorem Lasts.of_ledger (h : s'.ledger = s.ledger) : Lasts b s s' := by
  constructor
  · intro row hrow
    rw [h, hrow]
  · intro e he
    rw [h, he]

/-- **Only a prune of the segment ends its rows.** -/
theorem lasts_of_change (hsound : s.ledger.Sound) (h : SpoolState.Change s o s') :
    Lasts b s s' ∨ ∃ r now, o = .pruneSegment r now ∧ r.batchId = b ∧
      s'.history = s.history ++ [.pruned r now] := by
  cases h with
  | insert r t hinsert =>
      -- an insert finds no row under its own key, and by soundness no delivery row either
      obtain ⟨hnone, hsegments, -⟩ := Ledger.insertSegment_eq hinsert
      have hne : ∀ {b}, (s.ledger.segments.lookup b).isSome → r.batchId ≠ b := by
        rintro b hsome rfl
        rw [hnone] at hsome
        cases hsome
      refine Or.inl ⟨fun row hrow => ?_, fun e he => ?_⟩
      · have hb : r.batchId ≠ b := hne (by rw [hrow]; rfl)
        rw [SpoolState.ledger_setLedger, hsegments, AList.lookup_insert_ne hb.symm, hrow]
      · have hb : r.batchId ≠ b := hne (hsound b e (by rw [Ledger.required, he]; rfl))
        rw [SpoolState.ledger_setLedger, Ledger.insertSegment_exporter hinsert hb, he]
  | prune r now t hprune =>
      by_cases hb : r.batchId = b
      · exact Or.inr ⟨r, now, rfl, hb, rfl⟩
      · obtain ⟨-, hsegments, -⟩ := Ledger.pruneSegment_eq hprune
        refine Or.inl ⟨fun row hrow => ?_, fun e he => ?_⟩
        · rw [SpoolState.ledger_remember, SpoolState.ledger_setLedger, hsegments,
            AList.lookup_erase_ne (Ne.symm hb), hrow]
        · rw [SpoolState.ledger_remember, SpoolState.ledger_setLedger,
            Ledger.pruneSegment_exporter hprune hb, he]
  | status b' e status =>
      refine Or.inl ⟨fun row hrow => ?_, fun e he => ?_⟩
      · rw [SpoolState.ledger_setLedger, Ledger.advanceStatus_tables.1, hrow]
      · exact Ledger.advanceStatus_delivered he
  | tombstone b => exact Or.inl ⟨fun _ hrow => hrow, fun _ he => he⟩
  | ensure => exact Or.inl (.of_ledger (by simp))
  | ensureSync => exact Or.inl (.of_ledger (by simp))
  | _ => exact Or.inl (.of_ledger rfl)

end Lasting

/-! ## The barrier -/

/-- The operations of a section: none of them delivers. -/
def SpoolOp.sectional : SpoolOp → Prop
  | .export .. | .advanceStatus .. => False
  | .note e => e.announces
  | _ => True

/-- The operation does not prune. -/
def SpoolOp.spares : SpoolOp → Prop
  | .pruneSegment .. => False
  | _ => True

/-- The operation may convert the exclusive side. -/
def SpoolOp.shares : SpoolOp → Prop
  | .share => True
  | _ => False

section Sections

variable {fmt : SegmentFormat} {K : Path → Prop} {o : SpoolOp}

theorem sectional_of_touches (h : Touches K o) : o.sectional := by
  cases o <;> trivial

theorem spares_of_touches (h : Touches K o) : o.spares := by
  cases o with
  | pruneSegment => exact h.elim
  | _ => trivial

theorem not_shares_of_touches (h : Touches K o) : ¬ o.shares := by
  cases o with
  | share => exact h.elim
  | _ => exact id

/-- A commit shares the barrier once it has reconciled, and publishes after that. -/
theorem commitSegment_shares {header : SegmentHeaderV1} {frames : List fmt.Frame} {stamp : Stamp} :
    (commitSegment fmt header frames stamp).Only SpoolOp.sectional ∧
      (commitSegment fmt header frames stamp).After SpoolOp.shares SpoolOp.spares := by
  refine ⟨commitSegment_only (fun _ => sectional_of_touches) trivial fun _ he => he, ?_⟩
  unfold commitSegment
  split
  · trivial
  · split
    · trivial
    · have hpublish : ∀ (r : SegmentRecord) (content : Bytes) (shared : Bool),
          ((if !shared then pure (.error barrierNotAcquired) else publishAndRecord r content) :
            SpoolProg (Except SpoolError SegmentRecord)).Only
              (fun o : SpoolOp => o.spares ∧ ¬ o.shares) := by
        intro r content shared
        split
        · trivial
        · refine publishAndRecord_only (fun o ho => ?_) fun e he => ⟨trivial, id⟩
          exact ⟨spares_of_touches ho, not_shares_of_touches ho⟩
      refine After.bind (reconcilePass_only.mono fun _ => not_shares_of_touches) fun report => ?_
      cases report with
      | error e => trivial
      | ok report =>
          dsimp only
          split
          · trivial
          · split
            · trivial
            · exact ⟨fun _ shared => (hpublish _ _ shared).mono fun _ ho => ho.1,
                fun shared => Only.after ((hpublish _ _ shared).mono fun _ ho => ho.2)⟩

/-- **A section that shares the barrier prunes nothing from there on.** -/
theorem Section.shares (sec : Section fmt) :
    sec.prog.Only SpoolOp.sectional ∧ sec.prog.After SpoolOp.shares SpoolOp.spares := by
  have hunit : ∀ {α : Type} {p : SpoolProg α},
      p.Only SpoolOp.sectional ∧ p.After SpoolOp.shares SpoolOp.spares →
        (p >>= fun _ => (pure () : SpoolProg Unit)).Only SpoolOp.sectional ∧
          (p >>= fun _ => (pure () : SpoolProg Unit)).After SpoolOp.shares SpoolOp.spares :=
    fun h => ⟨h.1.bind fun _ => trivial, h.2.map⟩
  cases sec with
  | commit header frames stamp => exact hunit commitSegment_shares
  | reconcile =>
      exact hunit ⟨reconcilePass_only.mono fun _ => sectional_of_touches,
        (reconcilePass_only.mono fun _ => not_shares_of_touches).after⟩
  | retain now =>
      refine hunit ⟨retentionApply_only (fun _ => sectional_of_touches) fun _ => trivial, ?_⟩
      exact (retentionApply_only (fun _ => not_shares_of_touches) fun _ => id).after

end Sections

/-- The discipline of the barrier: deliveries and an exclusive section exclude each other. -/
structure World.Barrier (w : World) : Prop where
  shared : ∀ i p, w.deliveries.lookup i = some p → ∀ h, w.running = some h → h.exclusive = false
  running : ∀ h, w.running = some h → h.prog.Only SpoolOp.sectional ∧
    h.prog.After SpoolOp.shares SpoolOp.spares ∧
      (h.exclusive = false → h.prog.Only SpoolOp.spares)

section Barrier

variable {fmt : SegmentFormat} {w w' : World}

/-- Only a successful share gives up the exclusive side. -/
theorem staysExclusive_cases {o : SpoolOp} {r : o.Resp} (h : staysExclusive true o r = false) :
    o.shares := by
  unfold staysExclusive at h
  split at h
  · trivial
  · cases h

theorem staysExclusive_shared {o : SpoolOp} {r : o.Resp} : staysExclusive false o r = false := by
  unfold staysExclusive
  split <;> rfl

/-- No step of the spool breaks the exclusion of the barrier. -/
theorem World.Barrier.moved (h : w.Barrier) (hmoved : w.Moved fmt w') : w'.Barrier := by
  -- First what a running delivery knows of the section beside it, then what the section still is
  -- to do.
  refine ⟨?_, ?_⟩
  · cases hmoved with
    | start sec hidle hquiet =>
        intro i p hp
        rw [hquiet i] at hp
        cases hp
    | run x hrunning hprog hperform =>
        intro i p hp y hy
        obtain rfl := Option.some.inj hy
        show staysExclusive x.exclusive _ _ = false
        rw [h.shared i p hp x hrunning]
        exact staysExclusive_shared
    | deliver i record frames exporters now hshare hfresh =>
        intro j p hp y hy
        -- A delivery starts only beside a section that has given the exclusive side up.
        have hall : w.sharable = true := hshare
        rw [World.sharable, show w.running = some y from hy] at hall
        simpa using hall
    | runDelivery i hprog hperform =>
        intro j p hp
        exact h.shared i _ hprog
    | stopDelivery i =>
        intro j p hp
        by_cases hj : j = i
        · subst hj
          simp at hp
        · rw [AList.lookup_erase_ne hj] at hp
          exact h.shared j p hp
    | stop | crash => exact fun _ _ _ => nofun
    | _ => exact h.shared
  · cases hmoved with
    | start sec hidle hquiet =>
        intro y hy
        obtain rfl := Option.some.inj hy
        exact ⟨sec.shares.1, sec.shares.2, nofun⟩
    | run x hrunning hprog hperform =>
        intro y hy
        obtain rfl := Option.some.inj hy
        obtain ⟨honly, hafter, hspares⟩ := h.running x hrunning
        rw [hprog] at honly hafter hspares
        refine ⟨honly.2 _, hafter.2 _, fun hexclusive => ?_⟩
        -- A section that stays exclusive has not shared yet, so the rest of it is disciplined as
        -- before.
        cases hx : x.exclusive with
        | false => exact (hspares hx).2 _
        | true =>
            rw [hx] at hexclusive
            exact hafter.1 (staysExclusive_cases hexclusive) _
    | stop | crash => exact nofun
    | _ => exact h.running

/-- **While a delivery is in progress no row ends, and no event of a step is a prune.** -/
theorem World.Barrier.lasts (h : w.Barrier) (hp : w.Protected fmt) (hmoved : w.Moved fmt w')
    (b : String) :
    Lasts b w.store w'.store ∨ ((∀ i, w.deliveries.lookup i = none) ∧
      ∃ r now, r.batchId = b ∧ w'.store.history = w.store.history ++ [.pruned r now]) := by
  cases hmoved with
  | run x hrunning hprog hperform =>
      rcases lasts_of_change hp.sound (SpoolState.perform_change hperform) with
        hlasts | ⟨r, now, rfl, hb, hhistory⟩
      · exact Or.inl hlasts
      · refine Or.inr ⟨fun i => ?_, r, now, hb, hhistory⟩
        -- a delivery would have the section on the shared side, where it does not prune
        cases hi : w.deliveries.lookup i with
        | none => rfl
        | some p =>
            have hspares := (h.running x hrunning).2.2 (h.shared i p hi x hrunning)
            rw [hprog] at hspares
            exact hspares.1.elim
  | runDelivery i hprog hperform =>
      rcases lasts_of_change hp.sound (SpoolState.perform_change hperform) with
        hlasts | ⟨r, now, rfl, -⟩
      · exact Or.inl hlasts
      · exact (hp.deliveries i _ hprog).1.elim
  | advanceCursor hadvance =>
      obtain ⟨hsegments, hexporters, -⟩ := Ledger.advanceCursor_tables hadvance
      refine Or.inl ⟨fun row hrow => ?_, fun e he => ?_⟩
      · rw [SpoolState.ledger_setLedger, hsegments, hrow]
      · rw [SpoolState.ledger_setLedger, hexporters, he]
  | _ => exact Or.inl (.of_ledger rfl)

end Barrier

/-! ## What the history says of the delivery rows -/

/-- The frames of the row were handed to the exporter, which returned, and the row was not pruned
since. -/
def Handed (s : SpoolState) (r : SegmentRecord) (e : String) (now : Stamp) : Prop :=
  ∃ n frames, s.history[n]? = some (.handed r e frames now true) ∧
    ¬ PrunedIn (s.history.drop (n + 1)) r.batchId

/-- Since the last prune of the segment no attempt reported the row as delivered. -/
def Unreported (s : SpoolState) (b e : String) : Prop :=
  ∀ n r now, s.history[n]? = some (.attempted r e now .delivered) → r.batchId = b →
    PrunedIn (s.history.drop (n + 1)) b

structure Audit (fmt : SegmentFormat) (s : SpoolState) : Prop where
  /-- Frames were handed over for a row that was there, and it is there until a prune. -/
  handed : ∀ n r e frames now ok, s.history[n]? = some (.handed r e frames now ok) →
    Handable fmt r frames now ∧
      (s.ledger.segments.lookup r.batchId = some r.toSegmentRow ∨
        PrunedIn (s.history.drop (n + 1)) r.batchId)
  /-- A row that was reported is delivered until a prune. -/
  delivered : ∀ n r e now, s.history[n]? = some (.attempted r e now .delivered) →
    s.ledger.exporters.lookup (r.batchId, e) = some .delivered ∨
      PrunedIn (s.history.drop (n + 1)) r.batchId
  /-- A report follows a hand-over that returned, with no prune in between. -/
  certified : ∀ m r e now, s.history[m]? = some (.attempted r e now .delivered) →
    ∃ n frames, n < m ∧ s.history[n]? = some (.handed r e frames now true) ∧
      ¬ PrunedIn ((s.history.take m).drop (n + 1)) r.batchId
  /-- Two reports of a row have a prune between them. -/
  once : ∀ n m r r' e now now', n < m → s.history[n]? = some (.attempted r e now .delivered) →
    s.history[m]? = some (.attempted r' e now' .delivered) → r.batchId = r'.batchId →
      PrunedIn ((s.history.take m).drop (n + 1)) r.batchId

section Audits

variable {fmt : SegmentFormat} {s s' : SpoolState} {r : SegmentRecord} {b e : String}
  {now : Stamp} {x : Event}

theorem lt_of_getElem? {history : List Event} {n : Nat} (h : history[n]? = some x) :
    n < history.length := by
  obtain ⟨hn, -⟩ := List.getElem?_eq_some_iff.mp h
  exact hn

theorem drop_snoc {history : List Event} {n : Nat} (h : n < history.length) :
    (history ++ [x]).drop (n + 1) = history.drop (n + 1) ++ [x] :=
  List.drop_append_of_le_length (by omega)

theorem take_snoc {history : List Event} {m : Nat} (h : m ≤ history.length) :
    (history ++ [x]).take m = history.take m :=
  List.take_append_of_le_length h

/-- A prune after an event stays after it while the history grows. -/
theorem PrunedIn.snoc {history : List Event} {n : Nat} (h : PrunedIn (history.drop (n + 1)) b) :
    PrunedIn ((history ++ [x]).drop (n + 1)) b := by
  refine h.mono fun y hy => ?_
  rw [List.drop_append]
  exact List.mem_append_left _ hy

/-- Frames that were handed over stay so until the segment is pruned. -/
theorem Handed.snoc (h : Handed s r e now) (hhistory : s'.history = s.history ++ [x])
    (hx : ¬ PrunedIn [x] r.batchId) : Handed s' r e now := by
  obtain ⟨n, frames, hn, hpruned⟩ := h
  have hlt := lt_of_getElem? hn
  refine ⟨n, frames, ?_, ?_⟩
  · rw [hhistory, List.getElem?_append_left hlt, hn]
  · rw [hhistory, drop_snoc hlt]
    rintro ⟨r', now', hmem, hb⟩
    rcases List.mem_append.mp hmem with hmem | hmem
    · exact hpruned ⟨r', now', hmem, hb⟩
    · exact hx ⟨r', now', hmem, hb⟩

/-- A delivery stays unreported until it is reported. -/
theorem Unreported.snoc (h : Unreported s b e) (hhistory : s'.history = s.history ++ [x])
    (hx : ∀ r now, x = .attempted r e now .delivered → r.batchId ≠ b) : Unreported s' b e := by
  intro n r now hn hb
  rw [hhistory] at hn ⊢
  rcases index_snoc hn with hn | ⟨-, rfl⟩
  · exact (h n r now hn hb).snoc
  · exact absurd hb (hx r now rfl)

/-- A step that remembers nothing keeps the audit. -/
theorem Audit.same (h : Audit fmt s) (hhistory : s'.history = s.history)
    (hlasts : ∀ b, Lasts b s s') : Audit fmt s' := by
  refine ⟨?_, ?_, ?_, ?_⟩ <;> rw [hhistory]
  · intro n r e frames now ok hn
    obtain ⟨hhand, hrow⟩ := h.handed n r e frames now ok hn
    exact ⟨hhand, hrow.imp_left ((hlasts _).row _)⟩
  · intro n r e now hn
    exact (h.delivered n r e now hn).imp_left ((hlasts _).delivered _)
  · exact h.certified
  · exact h.once

/-- What an event must come with. -/
def Justified (fmt : SegmentFormat) (s s' : SpoolState) : Event → Prop
  | .handed r _ frames now _ => Handable fmt r frames now ∧
      s'.ledger.segments.lookup r.batchId = some r.toSegmentRow
  | .attempted r e now .delivered =>
      s'.ledger.exporters.lookup (r.batchId, e) = some .delivered ∧ Handed s r e now ∧
        Unreported s r.batchId e
  | _ => True

/-- **A step that remembers a justified event keeps the audit.** -/
theorem Audit.snoc (h : Audit fmt s) (hhistory : s'.history = s.history ++ [x])
    (hlasts : ∀ b, Lasts b s s' ∨ PrunedIn [x] b) (hx : Justified fmt s s' x) :
    Audit fmt s' := by
  have hpruned : ∀ {n b}, n < s.history.length → PrunedIn [x] b →
      PrunedIn ((s.history ++ [x]).drop (n + 1)) b := by
    intro n b hn hin
    rw [drop_snoc hn]
    exact hin.mono fun y hy => List.mem_append_right _ hy
  refine ⟨?_, ?_, ?_, ?_⟩ <;> rw [hhistory]
  · intro n r e frames now ok hn
    rcases index_snoc hn with hn | ⟨rfl, rfl⟩
    · obtain ⟨hhand, hrow⟩ := h.handed n r e frames now ok hn
      refine ⟨hhand, ?_⟩
      rcases hrow with hrow | hrow
      · exact (hlasts r.batchId).imp (fun hl => hl.row _ hrow) (hpruned (lt_of_getElem? hn))
      · exact Or.inr hrow.snoc
    · exact ⟨hx.1, Or.inl hx.2⟩
  · intro n r e now hn
    rcases index_snoc hn with hn | ⟨rfl, rfl⟩
    · rcases h.delivered n r e now hn with hrow | hrow
      · exact (hlasts r.batchId).imp (fun hl => hl.delivered e hrow) (hpruned (lt_of_getElem? hn))
      · exact Or.inr hrow.snoc
    · exact Or.inl hx.1
  · intro m r e now hm
    rcases index_snoc hm with hm | ⟨rfl, rfl⟩
    · obtain ⟨n, frames, hlt, hn, hsince⟩ := h.certified m r e now hm
      refine ⟨n, frames, hlt, ?_, ?_⟩
      · rw [List.getElem?_append_left (lt_of_getElem? hn), hn]
      · rw [take_snoc (lt_of_getElem? hm).le]
        exact hsince
    · -- the new report: its hand-over is in the history, with no prune since
      obtain ⟨n, frames, hn, hsince⟩ := hx.2.1
      have hlt := lt_of_getElem? hn
      refine ⟨n, frames, hlt, ?_, ?_⟩
      · rw [List.getElem?_append_left hlt, hn]
      · rw [take_snoc le_rfl, List.take_length]
        exact hsince
  · intro n m r r' e now now' hlt hn hm hb
    rcases index_snoc hm with hm | ⟨rfl, rfl⟩
    · have hmlt := lt_of_getElem? hm
      have hn' : s.history[n]? = some (.attempted r e now .delivered) := by
        rw [← hn, List.getElem?_append_left (by omega)]
      rw [take_snoc hmlt.le]
      exact h.once n m r r' e now now' hlt hn' hm hb
    · -- a second report of the row: the first one was pruned away before
      have hn' : s.history[n]? = some (.attempted r e now .delivered) := by
        rw [← hn, List.getElem?_append_left hlt]
      rw [take_snoc le_rfl, List.take_length, hb]
      exact hx.2.2 n r now hn' hb

end Audits

/-! ## Deliveries in their phases -/

/-- What the phase of a delivery says of the store. -/
def Phase.Holds (s : SpoolState) : Phase → Prop
  | .before => True
  | .turn r => s.ledger.segments.lookup r.batchId = some r.toSegmentRow
  | .handed r e now => s.ledger.segments.lookup r.batchId = some r.toSegmentRow ∧ Handed s r e now
  | .won r e now => s.ledger.segments.lookup r.batchId = some r.toSegmentRow ∧ Handed s r e now ∧
      s.ledger.exporters.lookup (r.batchId, e) = some .delivered ∧ Unreported s r.batchId e

/-- What one operation of a delivery does, seen from its phases. -/
structure DeliveryStep (fmt : SegmentFormat) (s s' : SpoolState) (phase phase' : Phase) : Prop where
  holds : phase'.Holds s'
  history : s'.history = s.history ∨ ∃ x, s'.history = s.history ++ [x] ∧ Justified fmt s s' x ∧
    (∀ b, ¬ PrunedIn [x] b) ∧
      ∀ r e now, x = .attempted r e now .delivered → phase = .won r e now
  fresh : ∀ r e now, phase' = .won r e now →
    s.ledger.exporters.lookup (r.batchId, e) ≠ some .delivered

section Steps

variable {fmt : SegmentFormat} {s s' : SpoolState} {phase : Phase} {x : Event}

/-- Steps of others keep what a phase says. -/
theorem Phase.Holds.same (h : phase.Holds s) (hhistory : s'.history = s.history)
    (hlasts : ∀ b, Lasts b s s') : phase.Holds s' := by
  have hhanded : ∀ {r e now}, Handed s r e now → Handed s' r e now := by
    rintro r e now ⟨n, frames, hn⟩
    refine ⟨n, frames, ?_⟩
    rw [hhistory]
    exact hn
  cases phase with
  | before => trivial
  | turn r => exact (hlasts _).row _ h
  | handed r e now => exact ⟨(hlasts _).row _ h.1, hhanded h.2⟩
  | won r e now =>
      refine ⟨(hlasts _).row _ h.1, hhanded h.2.1, (hlasts _).delivered _ h.2.2.1, ?_⟩
      unfold Unreported
      rw [hhistory]
      exact h.2.2.2

/-- What a delivery has established in its phase survives the events of others. -/
theorem Phase.Holds.snoc (h : phase.Holds s) (hhistory : s'.history = s.history ++ [x])
    (hlasts : ∀ b, Lasts b s s') (hprune : ∀ b, ¬ PrunedIn [x] b)
    (hx : ∀ r e now r' now', phase = .won r e now → x = .attempted r' e now' .delivered →
      r'.batchId ≠ r.batchId) : phase.Holds s' := by
  cases phase with
  | before => trivial
  | turn r => exact (hlasts _).row _ h
  | handed r e now => exact ⟨(hlasts _).row _ h.1, h.2.snoc hhistory (hprune _)⟩
  | won r e now =>
      exact ⟨(hlasts _).row _ h.1, h.2.1.snoc hhistory (hprune _), (hlasts _).delivered _ h.2.2.1,
        h.2.2.2.snoc hhistory fun r' now' hr => hx r e now r' now' rfl hr⟩

theorem not_prunedIn_of_noted {e : Event} (h : ∀ r now, e ≠ .pruned r now) (b : String) :
    ¬ PrunedIn [e] b := by
  rintro ⟨r, now, hmem, -⟩
  exact h r now (List.mem_singleton.mp hmem).symm

/-- **Every operation of a delivery is justified by its phase, and leads to the next.** -/
theorem delivery_step {o : SpoolOp} {c : Choice} {y : o.Resp} (haudit : Audit fmt s)
    (h : phase.Holds s) (hallows : phase.Allows fmt o) (hstep : s.perform o c = some (y, s')) :
    DeliveryStep fmt s s' phase (phase.next o y) := by
  cases phase with
  | before =>
      cases o with
      | readRecord b =>
          obtain ⟨rfl, rfl | rfl⟩ := SpoolState.perform_readRecord hstep
          · cases hrow : s'.ledger.segments.lookup b with
            | none => exact ⟨trivial, Or.inl rfl, fun _ _ _ h => by cases h⟩
            | some row => exact ⟨hrow, Or.inl rfl, fun _ _ _ h => by cases h⟩
          · exact ⟨trivial, Or.inl rfl, fun _ _ _ h => by cases h⟩
      | _ => exact hallows.elim
  | turn r =>
      cases o with
      | «export» r' e frames now =>
          obtain ⟨rfl, hhand⟩ := hallows
          obtain rfl := SpoolState.perform_export hstep
          have hrow : (s.remember (.handed r' e frames now y)).ledger.segments.lookup r'.batchId =
              some r'.toSegmentRow := h
          refine ⟨?_, Or.inr ⟨_, rfl, ⟨hhand, hrow⟩, not_prunedIn_of_noted (fun _ _ h => by cases h),
            fun _ _ _ h => by cases h⟩, ?_⟩
          · cases y with
            | false => exact hrow
            | true =>
                refine ⟨hrow, s.history.length, frames, ?_, ?_⟩
                · rw [SpoolState.history_remember, List.getElem?_concat_length]
                · rw [SpoolState.history_remember, List.drop_of_length_le (by simp)]
                  rintro ⟨_, _, hmem, -⟩
                  cases hmem
          · intro r e now hnext
            cases y <;> cases hnext
      | advanceStatus b e status =>
          obtain ⟨rfl, rfl⟩ := hallows
          have hrow : s'.ledger.segments.lookup r.batchId = some r.toSegmentRow := by
            rcases SpoolState.perform_advanceStatus hstep with ⟨-, rfl⟩ | ⟨-, rfl⟩
            · rw [SpoolState.ledger_setLedger, Ledger.advanceStatus_tables.1]
              exact h
            · exact h
          have hhistory : s'.history = s.history := by
            rcases SpoolState.perform_advanceStatus hstep with ⟨-, rfl⟩ | ⟨-, rfl⟩ <;> rfl
          exact ⟨hrow, Or.inl hhistory, fun _ _ _ h => by cases h⟩
      | note x =>
          cases x with
          | attempted r' e now outcome =>
              obtain ⟨rfl, hne⟩ := hallows
              obtain rfl := SpoolState.perform_note hstep
              refine ⟨h, Or.inr ⟨_, rfl, ?_, not_prunedIn_of_noted (fun _ _ h => by cases h), ?_⟩,
                fun _ _ _ h => by cases h⟩
              · cases outcome <;> trivial
              · rintro r e now heq
                cases heq
                exact absurd rfl hne
          | _ => exact hallows.elim
      | _ => exact hallows.elim
  | handed r e now =>
      cases o with
      | advanceStatus b e' status =>
          obtain ⟨rfl, rfl, rfl⟩ := hallows
          obtain ⟨hrow, hhanded⟩ := h
          rcases SpoolState.perform_advanceStatus hstep with ⟨rfl, rfl⟩ | ⟨rfl, rfl⟩
          · have hrow' : (s.ledger.advanceStatus r.batchId e' .delivered).2.segments.lookup
                r.batchId = some r.toSegmentRow := by
              rw [Ledger.advanceStatus_tables.1, hrow]
            cases hcas : (s.ledger.advanceStatus r.batchId e' .delivered).1 with
            | advanced =>
                obtain ⟨hfresh, hdelivered⟩ := Ledger.advanceStatus_advanced hcas
                refine ⟨⟨hrow', hhanded, hdelivered, ?_⟩, Or.inl rfl, ?_⟩
                · -- an earlier report would have the row delivered, unless it was pruned since
                  intro n r' now' hn hb
                  rcases haudit.delivered n r' e' now' hn with hrow | hpruned
                  · rw [hb] at hrow
                    exact absurd hrow hfresh
                  · rw [hb] at hpruned
                    exact hpruned
                · rintro r' x now' heq
                  cases heq
                  exact hfresh
            | already => exact ⟨hrow', Or.inl rfl, fun _ _ _ h => by cases h⟩
            | gone => exact ⟨hrow', Or.inl rfl, fun _ _ _ h => by cases h⟩
          · exact ⟨hrow, Or.inl rfl, fun _ _ _ h => by cases h⟩
      | _ => exact hallows.elim
  | won r e now =>
      cases o with
      | note x =>
          cases x with
          | attempted r' e' now' outcome =>
              obtain ⟨rfl, rfl, rfl, rfl⟩ := hallows
              obtain rfl := SpoolState.perform_note hstep
              refine ⟨h.1, Or.inr ⟨_, rfl, ?_, not_prunedIn_of_noted (fun _ _ h => by cases h), ?_⟩,
                fun _ _ _ h => by cases h⟩
              · exact ⟨h.2.2.1, h.2.1, h.2.2.2⟩
              · rintro r e now heq
                cases heq
                rfl
          | _ => exact hallows.elim
      | _ => exact hallows.elim

end Steps

/-! ## Every run -/

/-- The deliveries are where `phase` says, and no two of them have won the same row. -/
structure Phased (fmt : SegmentFormat) (phase : Nat → Phase) (w : World) : Prop where
  follows : ∀ i p, w.deliveries.lookup i = some p → Follows fmt (phase i) p
  holds : ∀ i p, w.deliveries.lookup i = some p → (phase i).Holds w.store
  unique : ∀ i j, i ≠ j → (w.deliveries.lookup i).isSome → (w.deliveries.lookup j).isSome →
    ∀ r r' e now now', phase i = .won r e now → phase j = .won r' e now' →
      r.batchId ≠ r'.batchId

structure World.Tracked (fmt : SegmentFormat) (w : World) : Prop where
  audit : Audit fmt w.store
  phased : ∃ phase, Phased fmt phase w

section Tracking

variable {fmt : SegmentFormat} {w w' : World} {phase : Nat → Phase}

variable (fmt) in
/-- What a section remembers needs no justification. -/
theorem justified_of_sectional {o : SpoolOp} {s s' : SpoolState} (ho : o.sectional)
    (h : SpoolState.Change s o s') :
    s'.history = s.history ∨ ∃ x, s'.history = s.history ++ [x] ∧ Justified fmt s s' x ∧
      (∀ r e now, x ≠ .attempted r e now .delivered) ∧ (o.spares → ∀ b, ¬ PrunedIn [x] b) := by
  cases h with
  | unreadable p =>
      refine Or.inr ⟨_, rfl, trivial, fun _ _ _ h => (by cases h), fun _ => ?_⟩
      exact not_prunedIn_of_noted fun _ _ h => by cases h
  | prune r now t hprune =>
      exact Or.inr ⟨_, rfl, trivial, fun _ _ _ h => (by cases h), fun h => h.elim⟩
  | handed r e frames now ok => exact ho.elim
  | note x =>
      cases x with
      | published | acknowledged =>
          refine Or.inr ⟨_, rfl, trivial, fun _ _ _ h => (by cases h), fun _ => ?_⟩
          exact not_prunedIn_of_noted fun _ _ h => by cases h
      | _ => exact ho.elim
  | ensure => exact Or.inl (by simp)
  | ensureSync => exact Or.inl (by simp)
  | _ => exact Or.inl rfl

/-- Where rows last, the deliveries that are left are where they were. -/
theorem Phased.same (h : Phased fmt phase w) (hhistory : w'.store.history = w.store.history)
    (hlasts : ∀ b, Lasts b w.store w'.store)
    (hsub : ∀ i p, w'.deliveries.lookup i = some p → w.deliveries.lookup i = some p) :
    Phased fmt phase w' := by
  have hsome : ∀ i, (w'.deliveries.lookup i).isSome → (w.deliveries.lookup i).isSome := by
    intro i hi
    obtain ⟨p, hp⟩ := Option.isSome_iff_exists.mp hi
    rw [hsub i p hp]
    rfl
  refine ⟨fun i p hp => h.follows i p (hsub i p hp), fun i p hp => ?_, fun i j hij hi hj => ?_⟩
  · exact (h.holds i p (hsub i p hp)).same hhistory hlasts
  · exact h.unique i j hij (hsome i hi) (hsome j hj)

/-- Another section's event changes nothing for the deliveries. -/
theorem Phased.snoc (h : Phased fmt phase w) {x : Event}
    (hhistory : w'.store.history = w.store.history ++ [x])
    (hlasts : ∀ i p, w.deliveries.lookup i = some p →
      (∀ b, Lasts b w.store w'.store) ∧ ∀ b, ¬ PrunedIn [x] b)
    (hx : ∀ r e now, x ≠ .attempted r e now .delivered) (hsame : w'.deliveries = w.deliveries) :
    Phased fmt phase w' := by
  refine ⟨?_, fun i p hp => ?_, ?_⟩
  · rw [hsame]
    exact h.follows
  · rw [hsame] at hp
    obtain ⟨hrows, hprune⟩ := hlasts i p hp
    exact (h.holds i p hp).snoc hhistory hrows hprune
      fun _ e _ r' now' _ heq => absurd heq (hx r' e now')
  · rw [hsame]
    exact h.unique

/-- Another delivery may begin. -/
theorem Phased.insert (h : Phased fmt phase w) {i : Nat} {p : SpoolProg Unit} {next : Phase}
    (hstore : ∀ j q, j ≠ i → w.deliveries.lookup j = some q → (phase j).Holds w'.store)
    (hsame : w'.deliveries = w.deliveries.insert i p) (hfollows : Follows fmt next p)
    (hholds : next.Holds w'.store)
    (hunique : ∀ j q, j ≠ i → w.deliveries.lookup j = some q → ∀ r r' e now now',
      next = .won r e now → phase j = .won r' e now' → r.batchId ≠ r'.batchId) :
    Phased fmt (Function.update phase i next) w' := by
  have hlookup : ∀ {j}, j ≠ i → w'.deliveries.lookup j = w.deliveries.lookup j := by
    intro j hj
    rw [hsame, AList.lookup_insert_ne hj]
  -- The delivery `i` takes the new phase, and every other one keeps its own.
  refine ⟨fun j q hq => ?_, fun j q hq => ?_, fun j k hjk hjs hks r r' e now now' hr hr' => ?_⟩
  · by_cases hj : j = i
    · subst hj
      rw [hsame, AList.lookup_insert] at hq
      rw [Function.update_self, ← Option.some.inj hq]
      exact hfollows
    · rw [Function.update_of_ne hj]
      exact h.follows j q (hlookup hj ▸ hq)
  · by_cases hj : j = i
    · subst hj
      rw [Function.update_self]
      exact hholds
    · rw [Function.update_of_ne hj]
      exact hstore j q hj (hlookup hj ▸ hq)
  · by_cases hj : j = i
    · have hk : k ≠ i := fun heq => hjk (hj.trans heq.symm)
      subst hj
      rw [Function.update_self] at hr
      rw [Function.update_of_ne hk] at hr'
      rw [hlookup hk] at hks
      obtain ⟨q, hq⟩ := Option.isSome_iff_exists.mp hks
      exact hunique k q hk hq r r' e now now' hr hr'
    · rw [Function.update_of_ne hj] at hr
      rw [hlookup hj] at hjs
      by_cases hk : k = i
      · subst hk
        rw [Function.update_self] at hr'
        obtain ⟨q, hq⟩ := Option.isSome_iff_exists.mp hjs
        exact (hunique j q hjk hq r' r e now' now hr' hr).symm
      · rw [Function.update_of_ne hk] at hr'
        rw [hlookup hk] at hks
        exact h.unique j k hjk hjs hks r r' e now now' hr hr'

/-- A step of the running section. -/
theorem World.Tracked.run (h : w.Tracked fmt) (hp : w.Protected fmt) (hb : w.Barrier)
    {x : Holder} {o : SpoolOp} {k : o.Resp → SpoolProg Unit} {c : Choice} {r : o.Resp}
    {s' : SpoolState} (hrunning : w.running = some x) (hprog : x.prog = .op o k)
    (hperform : w.store.perform o c = some (r, s')) {h' : Option Holder}
    (hmoved : w.Moved fmt { w with store := s', running := h' }) :
    World.Tracked fmt { w with store := s', running := h' } := by
  obtain ⟨haudit, phase, hphased⟩ := h
  have hsectional := (hb.running x hrunning).1
  rw [hprog] at hsectional
  have hlasts := hb.lasts hp hmoved
  rcases justified_of_sectional fmt hsectional.1 (SpoolState.perform_change hperform) with
    hhistory | ⟨e, hhistory, hjust, hreport, hspares⟩
  · -- nothing was remembered, so nothing was pruned
    have hall : ∀ b, Lasts b w.store s' := by
      intro b
      rcases hlasts b with hrow | ⟨-, r', now, -, heq⟩
      · exact hrow
      · have hlen := congrArg List.length (hhistory.symm.trans heq)
        simp at hlen
    exact ⟨haudit.same hhistory hall, phase, hphased.same hhistory hall fun _ _ hi => hi⟩
  · refine ⟨haudit.snoc hhistory (fun b => ?_) hjust, phase,
      hphased.snoc hhistory (fun i p hi => ⟨fun b => ?_, ?_⟩) hreport rfl⟩
    · rcases hlasts b with hrow | ⟨-, r', now, hr, heq⟩
      · exact Or.inl hrow
      · have hsame := List.append_cancel_left (hhistory.symm.trans heq)
        rw [hsame]
        exact Or.inr ⟨r', now, List.mem_singleton_self _, hr⟩
    · rcases hlasts b with hrow | ⟨hnone, -⟩
      · exact hrow
      · rw [hnone i] at hi
        cases hi
    · -- with a delivery in progress the section is on the shared side
      have honly := (hb.running x hrunning).2.2 (hb.shared i p hi x hrunning)
      rw [hprog] at honly
      exact hspares honly.1

/-- A step of a delivery. -/
theorem World.Tracked.runDelivery (h : w.Tracked fmt) (hp : w.Protected fmt) (hb : w.Barrier)
    {i : Nat} {o : SpoolOp} {k : o.Resp → SpoolProg Unit} {c : Choice} {r : o.Resp}
    {s' : SpoolState} (hprog : w.deliveries.lookup i = some (.op o k))
    (hperform : w.store.perform o c = some (r, s')) :
    World.Tracked fmt { w with store := s', deliveries := w.deliveries.insert i (k r) } := by
  obtain ⟨haudit, phase, hphased⟩ := h
  have hmoved : w.Moved fmt { w with store := s', deliveries := w.deliveries.insert i (k r) } :=
    .runDelivery i hprog hperform
  have hall : ∀ b, Lasts b w.store s' := by
    intro b
    rcases hb.lasts hp hmoved b with hrow | ⟨hnone, -⟩
    · exact hrow
    · rw [hnone i] at hprog
      cases hprog
  have hfollows := hphased.follows i _ hprog
  have hstep := delivery_step haudit (hphased.holds i _ hprog) hfollows.1 hperform
  have hnext : Phased fmt (Function.update phase i ((phase i).next o r))
      { w with store := s', deliveries := w.deliveries.insert i (k r) } := by
    refine hphased.insert (fun j q hj hq => ?_) rfl (hfollows.2 r) hstep.holds ?_
    · rcases hstep.history with hhistory | ⟨x, hhistory, -, hprune, hreport⟩
      · exact (hphased.holds j q hq).same hhistory hall
      · refine (hphased.holds j q hq).snoc hhistory hall hprune fun r₁ e now r₂ now₂ hwon heq => ?_
        exact hphased.unique i j hj.symm (by rw [hprog]; rfl) (by rw [hq]; rfl) r₂ r₁ e now₂ now
          (hreport r₂ e now₂ heq) hwon
    · -- a delivery that wins the row now found it not delivered; another winner would have left it so
      intro j q hj hq r₁ r₂ e now₁ now₂ hwon hother heq
      have hdelivered := hphased.holds j q hq
      rw [hother] at hdelivered
      refine hstep.fresh r₁ e now₁ hwon ?_
      rw [heq]
      exact hdelivered.2.2.1
  refine ⟨?_, _, hnext⟩
  rcases hstep.history with hhistory | ⟨x, hhistory, hjust, -, -⟩
  · exact haudit.same hhistory hall
  · exact haudit.snoc hhistory (fun b => Or.inl (hall b)) hjust

/-- **Every step keeps the audit and the phases.** -/
theorem World.Tracked.moved (h : w.Tracked fmt) (hp : w.Protected fmt) (hb : w.Barrier)
    (hmoved : w.Moved fmt w') : w'.Tracked fmt := by
  have hquiet : w'.store.history = w.store.history → (∀ b, Lasts b w.store w'.store) →
      (∀ i p, w'.deliveries.lookup i = some p → w.deliveries.lookup i = some p) →
        w'.Tracked fmt := by
    intro hhistory hlasts hsub
    obtain ⟨haudit, phase, hphased⟩ := h
    exact ⟨haudit.same hhistory hlasts, phase, hphased.same hhistory hlasts hsub⟩
  have hsame : ∀ b, w'.store.history = w.store.history → Lasts b w.store w'.store := by
    intro b hhistory
    rcases hb.lasts hp hmoved b with hrow | ⟨-, r, now, -, heq⟩
    · exact hrow
    · have hlen := congrArg List.length (hhistory.symm.trans heq)
      simp at hlen
  cases hmoved with
  | run x hrunning hprog hperform =>
      exact h.run hp hb hrunning hprog hperform (.run x hrunning hprog hperform)
  | deliver i record frames exporters now hshare hfresh =>
      obtain ⟨haudit, phase, hphased⟩ := h
      have hnext : ∀ prog, Follows fmt .before prog → Phased fmt
          (Function.update phase i .before) { w with deliveries := w.deliveries.insert i prog } := by
        intro prog hfollows
        refine hphased.insert (fun j q _ hq => hphased.holds j q hq) rfl hfollows trivial
          fun _ _ _ _ _ _ _ _ _ heq => ?_
        cases heq
      exact ⟨haudit, _, hnext _ deliverSegment_follows⟩
  | runDelivery i hprog hperform => exact h.runDelivery hp hb hprog hperform
  | stopDelivery i =>
      refine hquiet rfl (fun b => hsame b rfl) fun j p hj => ?_
      by_cases hi : j = i
      · subst hi
        simp at hj
      · rw [AList.lookup_erase_ne hi] at hj
        exact hj
  | crash kept =>
      refine hquiet rfl (fun b => hsame b rfl) fun j p hj => ?_
      simp at hj
  | _ => exact hquiet rfl (fun b => hsame b rfl) fun _ _ hj => hj

/-- The invariants of the delivery ledger hold after every run. -/
theorem tracked_of_run {tr : List (Move fmt)} (hrun : Run (spool fmt) tr w) :
    w.Barrier ∧ w.Tracked fmt := by
  refine hrun.history (P := fun _ w => w.Barrier ∧ w.Tracked fmt) ?_ ?_
  · rintro w rfl
    refine ⟨⟨fun i p hi => ?_, fun i hi => ?_⟩, ⟨?_, fun _ => .before, ?_⟩⟩
    · simp [World.init] at hi
    · cases hi
    · constructor <;> simp [World.init, SpoolState.empty]
    · constructor <;> simp [World.init]
  · intro tr w m w' hrun hinvariants hstep
    obtain ⟨hb, ht⟩ := hinvariants
    have hmoved := World.step_moved hstep
    exact ⟨hb.moved hmoved, ht.moved (protected_of_run hrun) hb hmoved⟩

/-- The history only grows. -/
theorem World.Moved.history (hmoved : w.Moved fmt w') : w.store.history <+: w'.store.history := by
  cases hmoved with
  | run x hrunning hprog hperform => exact (SpoolState.perform_change hperform).history
  | runDelivery i hprog hperform => exact (SpoolState.perform_change hperform).history
  | _ => exact List.prefix_refl _

/-- The history only ever grows. -/
theorem history_of_exec {ls : List (Move fmt)} (hexec : exec (World.step fmt) w ls = some w') :
    w.store.history <+: w'.store.history := by
  induction ls generalizing w with
  | nil =>
      obtain rfl : w = w' := by simpa using hexec
      exact List.prefix_refl _
  | cons m ls ih =>
      obtain ⟨v, hstep, hrest⟩ := Option.bind_eq_some_iff.mp hexec
      exact (World.step_moved hstep).history.trans (ih hrest)

/-- **A delivered row lasts through a run, up to a prune of its segment.** -/
theorem delivered_lasts {tr ls : List (Move fmt)} (hrun : Run (spool fmt) tr w)
    (hexec : exec (World.step fmt) w ls = some w') {b e : String}
    (hrow : w.store.ledger.exporters.lookup (b, e) = some .delivered) :
    w'.store.ledger.exporters.lookup (b, e) = some .delivered ∨
      PrunedIn (w'.store.history.drop w.store.history.length) b := by
  induction ls generalizing w tr with
  | nil =>
      obtain rfl : w = w' := by simpa using hexec
      exact Or.inl hrow
  | cons m ls ih =>
      obtain ⟨v, hstep, hrest⟩ := Option.bind_eq_some_iff.mp hexec
      have hmoved := World.step_moved hstep
      obtain ⟨later, hlater⟩ := history_of_exec hrest
      rcases (tracked_of_run hrun).1.lasts (protected_of_run hrun) hmoved b with
        hlasts | ⟨-, r, now, hb, hhistory⟩
      · refine (ih (hrun.snoc hstep) hrest (hlasts.delivered e hrow)).imp_right fun hpruned => ?_
        have hle : w.store.history.length ≤ v.store.history.length := hmoved.history.length_le
        exact hpruned.mono fun x hx => (List.drop_subset_drop_left _ hle) hx
      · -- the prune is the first event after `w`
        refine Or.inr ⟨r, now, ?_, hb⟩
        rw [← hlater, hhistory, List.append_assoc, List.drop_left]
        exact List.mem_append_left _ (List.mem_singleton_self _)

/-- **The delivery ledger over every run.** A delivered row stays delivered until its segment is
pruned; between two reports of a row as delivered its segment was pruned; a report follows a
hand-over of the same row to the same exporter, at the instant of the call, that returned normally,
with no prune in between; and whatever was handed over was the row's own frames, in number, batch
and digest, all of them unexpired. -/
theorem delivery_ledger {tr : List (Move fmt)} (hrun : Run (spool fmt) tr w) :
    (∀ ls w' b e, exec (World.step fmt) w ls = some w' →
      w.store.ledger.exporters.lookup (b, e) = some .delivered →
        w'.store.ledger.exporters.lookup (b, e) = some .delivered ∨
          PrunedIn (w'.store.history.drop w.store.history.length) b) ∧
    (∀ n m r r' e now now', n < m →
      w.store.history[n]? = some (.attempted r e now .delivered) →
      w.store.history[m]? = some (.attempted r' e now' .delivered) → r.batchId = r'.batchId →
        PrunedIn ((w.store.history.take m).drop (n + 1)) r.batchId) ∧
    (∀ m r e now, w.store.history[m]? = some (.attempted r e now .delivered) →
      ∃ n frames, n < m ∧ w.store.history[n]? = some (.handed r e frames now true) ∧
        ¬ PrunedIn ((w.store.history.take m).drop (n + 1)) r.batchId) ∧
    (∀ n r e frames now ok, w.store.history[n]? = some (.handed r e frames now ok) →
      Handable fmt r frames now ∧
        (w.store.ledger.segments.lookup r.batchId = some r.toSegmentRow ∨
          PrunedIn (w.store.history.drop (n + 1)) r.batchId)) := by
  obtain ⟨-, haudit, -⟩ := tracked_of_run hrun
  exact ⟨fun ls w' b e hexec hrow => delivered_lasts hrun hexec hrow, haudit.once,
    haudit.certified, haudit.handed⟩

end Tracking

/-- Two deliveries of the sample segment race; the second is too late for the first one's row. -/
def sampleRace : List (Move sampleFormat) :=
  let exporters : Exporters := AList.insert "x" (some "x") ∅
  sampleCommit ++
    [.deliver 0 sampleRecord [sampleExpiry] exporters 4, .runDelivery 0 .ok,
      .deliver 1 sampleRecord [sampleExpiry] exporters 4, .runDelivery 1 .ok, .runDelivery 1 .ok,
      .runDelivery 0 .ok, .runDelivery 0 .ok, .runDelivery 1 .ok, .runDelivery 0 .ok,
      .runDelivery 1 .ok, .stopDelivery 0, .stopDelivery 1]

/-- Two collectors race over one segment: one reports the delivery and the other that it was
delivered already. -/
theorem sampleRace_reported : ∃ w, Run (spool sampleFormat) sampleRace w ∧
    w.store.history[4]? = some (.attempted sampleRecord "x" 4 .delivered) ∧
    w.store.history[5]? = some (.attempted sampleRecord "x" 4 .alreadyDelivered) ∧
    ∃ n frames, n < 4 ∧
      w.store.history[n]? = some (.handed sampleRecord "x" frames 4 true) ∧
        ¬ PrunedIn ((w.store.history.take 4).drop (n + 1)) sampleRecord.batchId := by
  obtain ⟨w, hrun, hfirst, hsecond⟩ : ∃ w, Run (spool sampleFormat) sampleRace w ∧
      (w.store.history[4]? = some (.attempted sampleRecord "x" 4 .delivered) ∧
        w.store.history[5]? = some (.attempted sampleRecord "x" 4 .alreadyDelivered)) :=
    exists_run_of_exec (by decide +kernel)
  exact ⟨w, hrun, hfirst, hsecond, (delivery_ledger hrun).2.2.1 4 sampleRecord "x" 4 hfirst⟩

end Milhouse
