import Mathlib.Data.String.Basic
import Milhouse.Spool.Commit
import Milhouse.Spool.Deliver

/-!
# Milhouse — replaying the committed segments

`replaySegments` is `replay_segments`: it lists the ledger, reads each durable segment through the
trusted reader, requires the file to be the one of its row, and drives the delivery of the segment.
A pass is run on storage without faults, against exporters that return or raise as they like.

* `run_attemptRow` — one exporter row is left delivered, or its attempt says why it is not;
* `run_deliverSegment` — so is every row of a segment;
* `Faithful` — what any number of passes leaves as it was, and what the exporters were handed;
* **`run_replaySegments`** — a pass returns, reports every segment, and keeps `Faithful`;
* **`replays_complete`** — so does every later one, with the same segments and record ids.
-/

namespace Milhouse

open Interaction Interaction.Prog

/-! ## Trusted formats -/

/-- A format whose reader has checked what it returns: frames of the header's batch, with lines of the
header's digest. -/
structure CheckedFormat extends SegmentFormat where
  /-- `frame.record.record_id` -/
  recordId : Frame → String
  read_batch : ∀ {b s}, read b = .ok s → ∀ f ∈ s.frames, batchId f = s.header.batchId
  read_content : ∀ {b s}, read b = .ok s → contentSha256 (s.frames.map line) = s.header.contentSha256

/-! ## The program -/

structure ReplayReport where
  segments : List String
  recordIds : List String
  deliveryAttempts : List ExporterAttempt
  deriving DecidableEq, Repr

def ReplayReport.empty : ReplayReport := ⟨[], [], []⟩

/-- What a replay raises: the code of a refused read, or a failure of its own. -/
inductive ReplayError where
  | unreadable (code : String)
  | spool (error : SpoolError)
  deriving DecidableEq, Repr

section Replay

variable (fmt : CheckedFormat)

/-- `_verify_against_ledger`. -/
def verifyAgainstLedger (parsed : ParsedSegment fmt.Frame) (record : SegmentRecord) :
    Except SpoolError Unit :=
  if parsed.fileSha256 ≠ record.fileSha256 ∨ parsed.byteSize ≠ record.byteSize ∨
      parsed.header.contentSha256 ≠ record.contentSha256 ∨
      parsed.frames.length ≠ record.recordCount then
    .error ⟨"MH_SPOOL_REPLAY", "a durable segment does not match its ledger row"⟩
  else .ok ()

/-- The segments with a delivery row in a status, or all of them. -/
def selectRecords (deliveryStatus : Option DeliveryStatus) (records : List SegmentRecord) :
    List SegmentRecord :=
  match deliveryStatus with
  | none => records
  | some status => records.filter fun record => record.exporters.any fun row => row.2 = status

/-- One segment of a pass: its record ids, and the attempts to deliver it. -/
def replaySegment (exporters : Exporters) (now : Stamp) (record : SegmentRecord) :
    SpoolProg (Except ReplayError (List String × List ExporterAttempt)) := do
  match ← readTrustedSegment fmt.toSegmentFormat (segmentPath record.day record.batchId) false with
  | .error code => pure (.error (.unreadable code))
  | .ok parsed =>
      match verifyAgainstLedger fmt parsed record with
      | .error e => pure (.error (.spool e))
      | .ok () =>
          match ← deliverSegment fmt.toSegmentFormat record parsed.frames exporters now with
          | .error e => pure (.error (.spool e))
          | .ok attempts => pure (.ok (parsed.frames.map fmt.recordId, attempts))

/-- The exporters, as they say of themselves while a segment is delivered: an `exporter_id` property
may answer differently each time. -/
abbrev ExporterMap := SegmentRecord → Exporters

/-- The segments in order. -/
def replayFrom (exporters : ExporterMap) (now : Stamp) :
    List SegmentRecord → ReplayReport → SpoolProg (Except ReplayError ReplayReport)
  | [], report => pure (.ok report)
  | record :: rest, report => do
      match ← replaySegment fmt (exporters record) now record with
      | .error e => pure (.error e)
      | .ok (recordIds, attempts) =>
          replayFrom exporters now rest
            ⟨report.segments ++ [record.batchId], report.recordIds ++ recordIds,
              report.deliveryAttempts ++ attempts⟩

/-- `replay_segments`. -/
def replaySegments (exporters : ExporterMap) (now : Stamp) (deliveryStatus : Option DeliveryStatus) :
    SpoolProg (Except ReplayError ReplayReport) := do
  match (← call (Γ := spoolSignature) .readLedger : Option (List SegmentRecord)) with
  | none => pure (.error (.spool ledgerUnreadable))
  | some records =>
      replayFrom fmt exporters now (selectRecords deliveryStatus records) ReplayReport.empty

end Replay

/-! ## Storage without faults -/

/-- Whether an exporter returns: it may depend on everything that happened before. -/
abbrev Behaviour := SpoolState → SegmentRecord → String → List HandedFrame → Stamp → Bool

/-- The choice of an operation, where only exporters fail. -/
def Behaviour.choice (behaviour : Behaviour) (s : SpoolState) : SpoolOp → Choice
  | .export r e frames now => if behaviour s r e frames now then .ok else .fail
  | _ => .ok

/-- The response to an operation. -/
def Behaviour.serve (behaviour : Behaviour) (s : SpoolState) (o : spoolSignature.Op) :
    Option (spoolSignature.Resp o × SpoolState) := s.perform o (behaviour.choice s o)

/-- One pass over every segment. -/
structure Pass where
  exporters : ExporterMap
  now : Stamp
  behaviour : Behaviour

section Passes

variable (fmt : CheckedFormat)

/-- What a pass gives, with the state it leaves. -/
def Pass.run (pass : Pass) (s : SpoolState) : Option (Except ReplayError ReplayReport × SpoolState) :=
  (replaySegments fmt pass.exporters pass.now none).run pass.behaviour.serve s

/-- Passes one after the other, each of which returns a report. -/
inductive Replays : SpoolState → List (Pass × ReplayReport) → SpoolState → Prop where
  | done (s : SpoolState) : Replays s [] s
  | pass {s t u : SpoolState} {pass : Pass} {report : ReplayReport}
      {rest : List (Pass × ReplayReport)} (h : pass.run fmt s = some (.ok report, t))
      (hrest : Replays t rest u) : Replays s ((pass, report) :: rest) u

end Passes

/-! ## What passes leave as it was -/

/-- A call of an exporter, as the history shows it. -/
structure Handing where
  batchId : String
  exporterId : String
  frames : List HandedFrame
  returned : Bool
  deriving DecidableEq

def handing? : Event → Option Handing
  | .handed r e frames _ returned => some ⟨r.batchId, e, frames, returned⟩
  | _ => none

def handings (history : List Event) : List Handing := history.filterMap handing?

/-- An exporter that returned for a segment is not called for it again. -/
def Once (calls : List Handing) : Prop :=
  calls.Pairwise fun call later =>
    call.returned = true → ¬ (later.batchId = call.batchId ∧ later.exporterId = call.exporterId)

section Faithful

variable (fmt : CheckedFormat)

/-- The frames of a segment's file. -/
def segmentFrames (s : SpoolState) (record : SegmentRecord) : List fmt.Frame :=
  match s.stat (segmentPath record.day record.batchId) with
  | none => []
  | some f =>
      match fmt.read f.content with
      | .ok parsed => parsed.frames
      | .error _ => []

/-- The file of a committed segment is private, can be read, and is the one of its row. -/
def Intact (s : SpoolState) (record : SegmentRecord) : Prop :=
  ∃ f parsed, s.stat (segmentPath record.day record.batchId) = some f ∧ f.shape = .private ∧
    f.content.length ≤ maxSegmentFileBytes ∧ fmt.read f.content = .ok parsed ∧
    parsed.header.batchId = record.batchId ∧ verifyAgainstLedger fmt parsed record = .ok ()

def Delivered (s : SpoolState) (batchId exporterId : String) : Prop :=
  s.ledger.exporters.lookup (batchId, exporterId) = some .delivered

/-- From `s` to `s'` only delivery rows moved on, and every call of an exporter was one it was owed:
it got the frames of the segment, it was not called where the row was delivered, and where it returned
the row is delivered now. No row was delivered without such a call. -/
structure Faithful (s s' : SpoolState) : Prop where
  dirs : s'.dirs = s.dirs
  segments : s'.ledger.segments = s.ledger.segments
  rows : ∀ b e, s'.ledger.required b e ↔ s.ledger.required b e
  kept : ∀ b e, Delivered s b e → Delivered s' b e
  calls : ∃ new, s'.history = s.history ++ new ∧ Once (handings new) ∧
    (∀ b e, Delivered s' b e → Delivered s b e ∨ ∃ call ∈ handings new,
      call.batchId = b ∧ call.exporterId = e ∧ call.returned = true) ∧
    ∀ call ∈ handings new,
      (∃ row, s.ledger.segments.lookup call.batchId = some row ∧
        call.frames = (segmentFrames fmt s (s.ledger.record call.batchId row)).map fmt.handed) ∧
      ¬ Delivered s call.batchId call.exporterId ∧
      (call.returned = true → Delivered s' call.batchId call.exporterId)

variable {fmt} {s s' t : SpoolState}

theorem segmentFrames_congr (hdirs : s'.dirs = s.dirs) {record record' : SegmentRecord}
    (hrow : record'.toSegmentRow = record.toSegmentRow) (hbatch : record'.batchId = record.batchId) :
    segmentFrames fmt s' record' = segmentFrames fmt s record := by
  unfold segmentFrames
  rw [hrow, hbatch, SpoolState.stat_congr hdirs]

theorem Faithful.refl (s : SpoolState) : Faithful fmt s s :=
  ⟨rfl, rfl, fun _ _ => Iff.rfl, fun _ _ h => h, [], (List.append_nil _).symm, List.Pairwise.nil,
    fun _ _ h => Or.inl h, nofun⟩

theorem Faithful.history (h : Faithful fmt s s') : s.history <+: s'.history := by
  obtain ⟨new, hnew, -⟩ := h.calls
  exact ⟨new, hnew.symm⟩

/-- **What two passes leave is what one leaves.** -/
theorem Faithful.trans (h : Faithful fmt s s') (h' : Faithful fmt s' t) : Faithful fmt s t := by
  obtain ⟨new, hnew, honce, hmade, hcalls⟩ := h.calls
  obtain ⟨new', hnew', honce', hmade', hcalls'⟩ := h'.calls
  have hboth : handings (new ++ new') = handings new ++ handings new' := List.filterMap_append ..
  refine ⟨h'.dirs.trans h.dirs, h'.segments.trans h.segments, fun b e => (h'.rows b e).trans (h.rows b e),
    fun b e hdelivered => h'.kept b e (h.kept b e hdelivered), new ++ new', ?_, ?_, ?_, ?_⟩
  · rw [hnew', hnew, List.append_assoc]
  · -- a later call finds the row not delivered, which an earlier one that returned would have made it
    rw [hboth]
    refine List.pairwise_append.mpr ⟨honce, honce', fun call hcall later hlater hreturned hsame => ?_⟩
    have hdelivered := (hcalls call hcall).2.2 hreturned
    rw [← hsame.1, ← hsame.2] at hdelivered
    exact (hcalls' later hlater).2.1 hdelivered
  · intro b e hdelivered
    rw [hboth]
    rcases hmade' b e hdelivered with hdelivered | ⟨call, hcall, hreturned⟩
    · rcases hmade b e hdelivered with hdelivered | ⟨call, hcall, hreturned⟩
      · exact Or.inl hdelivered
      · exact Or.inr ⟨call, List.mem_append_left _ hcall, hreturned⟩
    · exact Or.inr ⟨call, List.mem_append_right _ hcall, hreturned⟩
  · intro call hcall
    rw [hboth, List.mem_append] at hcall
    rcases hcall with hcall | hcall
    · obtain ⟨hframes, hfresh, hdone⟩ := hcalls call hcall
      exact ⟨hframes, hfresh, fun hreturned => h'.kept _ _ (hdone hreturned)⟩
    · obtain ⟨⟨row, hrow, hframes⟩, hfresh, hdone⟩ := hcalls' call hcall
      refine ⟨⟨row, by rw [← h.segments, hrow], ?_⟩, fun hdelivered => hfresh (h.kept _ _ hdelivered),
        hdone⟩
      rw [hframes]
      congr 1
      exact segmentFrames_congr h.dirs rfl rfl

/-- Remembering anything but a call changes nothing. -/
theorem Faithful.remember {event : Event} (h : handing? event = none) :
    Faithful fmt s (s.remember event) := by
  refine ⟨rfl, rfl, fun _ _ => Iff.rfl, fun _ _ h => h, [event], rfl, ?_⟩
  unfold handings
  rw [List.filterMap_cons_none h]
  exact ⟨List.Pairwise.nil, fun _ _ h => Or.inl h, nofun⟩

end Faithful

/-! ## One exporter row -/

section Delivery

variable {fmt : CheckedFormat} {behaviour : Behaviour} {exporters : Exporters} {now : Stamp}
variable {live : SegmentRecord} {frames : List fmt.Frame} {s : SpoolState}

theorem serve_export (r : SegmentRecord) (e : String) (handed : List HandedFrame) :
    behaviour.serve s (.export r e handed now) =
      some (behaviour s r e handed now,
        s.remember (.handed r e handed now (behaviour s r e handed now))) := by
  show s.perform (.export r e handed now)
    (if behaviour s r e handed now then Choice.ok else Choice.fail) = _
  cases behaviour s r e handed now <;> rfl

/-- The compare-and-set of a row that is not delivered. -/
theorem advanceStatus_of_lookup {t : Ledger} {b e : String} {st status : DeliveryStatus}
    (h : t.exporters.lookup (b, e) = some st) (hst : st ≠ .delivered) :
    t.advanceStatus b e status =
      (.advanced, { t with exporters := t.exporters.insert (b, e) status }) := by
  unfold Ledger.advanceStatus
  rw [h]
  cases st with
  | delivered => exact absurd rfl hst
  | pending => rfl
  | failed => rfl

/-- A call that was made on the way from `s` to `s'`. -/
def Handing.MadeIn (call : Handing) (s s' : SpoolState) : Prop :=
  ∃ new, s'.history = s.history ++ new ∧ call ∈ handings new

/-- What an attempt reports of a row that it leaves undelivered, and why that is so: no exporter
answers to the id of the row, a record of the segment has expired, or the exporter was called with the
frames of the segment and raised. -/
inductive AttemptCause (fmt : CheckedFormat) (exporters : Exporters) (now : Stamp)
    (frames : List fmt.Frame) (s s' : SpoolState) (batchId exporterId : String) :
    AttemptOutcome → Prop where
  | noExporter (h : knows exporters exporterId = false) :
      AttemptCause fmt exporters now frames s s' batchId exporterId .noExporter
  | expired (h : segmentIsExpired fmt.toSegmentFormat frames now = true) :
      AttemptCause fmt exporters now frames s s' batchId exporterId .expired
  | failed (h : Handing.MadeIn ⟨batchId, exporterId, frames.map fmt.handed, false⟩ s s') :
      AttemptCause fmt exporters now frames s s' batchId exporterId .failed

/-- What was the cause within a part of a pass is one in the pass. -/
theorem AttemptCause.mono {s₀ s' t : SpoolState} {b e : String} {outcome : AttemptOutcome}
    (hbefore : s₀.history <+: s.history) (hafter : s'.history <+: t.history)
    (h : AttemptCause fmt exporters now frames s s' b e outcome) :
    AttemptCause fmt exporters now frames s₀ t b e outcome := by
  cases h with
  | noExporter h => exact .noExporter h
  | expired h => exact .expired h
  | failed h =>
      obtain ⟨new, hnew, hcall⟩ := h
      obtain ⟨before, hbefore⟩ := hbefore
      obtain ⟨after, hafter⟩ := hafter
      refine .failed ⟨before ++ (new ++ after), ?_, ?_⟩
      · rw [← hafter, hnew, ← hbefore, List.append_assoc, List.append_assoc]
      · unfold handings at hcall ⊢
        rw [List.filterMap_append, List.filterMap_append]
        exact List.mem_append_right _ (List.mem_append_left _ hcall)

/-- The state after an exporter was called and its outcome was recorded. -/
def SpoolState.attempted (s : SpoolState) (live : SegmentRecord) (e : String)
    (handed : List HandedFrame) (now : Stamp) (returned : Bool) : SpoolState :=
  (s.remember (.handed live e handed now returned)).setLedger { s.ledger with
    exporters := s.ledger.exporters.insert (live.batchId, e)
      (if returned then .delivered else .failed) }

theorem faithful_attempted {e : String} {row : SegmentRow} {st : DeliveryStatus}
    {handed : List HandedFrame} {returned : Bool}
    (hrow : s.ledger.segments.lookup live.batchId = some row)
    (hframes : handed = (segmentFrames fmt s (s.ledger.record live.batchId row)).map fmt.handed)
    (hlookup : s.ledger.exporters.lookup (live.batchId, e) = some st) (hst : st ≠ .delivered) :
    Faithful fmt s (s.attempted live e handed now returned) := by
  have hnew : ∀ b' e', (b', e') ≠ (live.batchId, e) →
      (s.attempted live e handed now returned).ledger.exporters.lookup (b', e') =
        s.ledger.exporters.lookup (b', e') :=
    fun b' e' hne => AList.lookup_insert_ne hne
  have hsame : (s.attempted live e handed now returned).ledger.exporters.lookup (live.batchId, e) =
      some (if returned then .delivered else .failed) := AList.lookup_insert _
  refine ⟨rfl, rfl, fun b' e' => ?_, fun b' e' hdelivered => ?_,
    [.handed live e handed now returned], rfl, ?_, ?_, ?_⟩
  · unfold Ledger.required
    by_cases hkey : (b', e') = (live.batchId, e)
    · rw [hkey, hsame, hlookup]
      simp
    · rw [hnew b' e' hkey]
  · -- the row itself was not delivered
    have hkey : (b', e') ≠ (live.batchId, e) := by
      intro hkey
      unfold Delivered at hdelivered
      rw [hkey, hlookup] at hdelivered
      exact hst (Option.some.inj hdelivered)
    unfold Delivered
    rw [hnew b' e' hkey]
    exact hdelivered
  · exact List.pairwise_singleton _ _
  · intro b' e' hdelivered
    unfold Delivered at hdelivered
    by_cases hkey : (b', e') = (live.batchId, e)
    · rw [hkey, hsame] at hdelivered
      obtain ⟨rfl, rfl⟩ := Prod.mk.inj hkey
      refine Or.inr ⟨_, List.mem_singleton_self _, rfl, rfl, ?_⟩
      cases returned with
      | true => rfl
      | false => cases hdelivered
    · rw [hnew b' e' hkey] at hdelivered
      exact Or.inl hdelivered
  · intro call hcall
    obtain rfl := List.mem_singleton.mp hcall
    refine ⟨⟨row, hrow, hframes⟩, ?_, ?_⟩
    · intro hdelivered
      exact hst (Option.some.inj (hlookup.symm.trans hdelivered))
    · intro hreturned
      unfold Delivered
      rw [hsame]
      simpa using hreturned

/-- **One exporter row** is left delivered, or its attempt says why it is not. -/
theorem run_attemptRow {row : String × DeliveryStatus} {segment : SegmentRow}
    (hsegment : s.ledger.segments.lookup live.batchId = some segment)
    (hframes : frames = segmentFrames fmt s (s.ledger.record live.batchId segment))
    (hlookup : s.ledger.exporters.lookup (live.batchId, row.1) = some row.2) :
    ∃ outcome s', (attemptRow fmt.toSegmentFormat live frames exporters now row).run behaviour.serve s =
        some (.ok outcome, s') ∧
      Faithful fmt s s' ∧ (Delivered s' live.batchId row.1 ∨
        AttemptCause fmt exporters now frames s s' live.batchId row.1 outcome) ∧
      ∀ e, e ≠ row.1 → s'.ledger.exporters.lookup (live.batchId, e) =
        s.ledger.exporters.lookup (live.batchId, e) := by
  unfold attemptRow
  by_cases hdelivered : row.2 = .delivered
  · rw [if_pos hdelivered]
    rw [hdelivered] at hlookup
    exact ⟨_, s, rfl, Faithful.refl s, Or.inl hlookup, fun _ _ => rfl⟩
  · rw [if_neg hdelivered]
    cases hknows : knows exporters row.1 with
    | false => exact ⟨_, s, rfl, Faithful.refl s, Or.inr (.noExporter hknows), fun _ _ => rfl⟩
    | true =>
        -- Named, so that the behaviour of the exporter stays out of the terms.
        obtain ⟨handed, hhanded⟩ : ∃ handed, frames.map fmt.handed = handed := ⟨_, rfl⟩
        obtain ⟨returned, hreturned⟩ : ∃ returned, behaviour s live row.1 handed now = returned :=
          ⟨_, rfl⟩
        have hfaithful : Faithful fmt s (s.attempted live row.1 handed now returned) :=
          faithful_attempted hsegment (by rw [← hframes, hhanded]) hlookup hdelivered
        have hother : ∀ e, e ≠ row.1 →
            (s.attempted live row.1 handed now returned).ledger.exporters.lookup (live.batchId, e) =
              s.ledger.exporters.lookup (live.batchId, e) :=
          fun e he => AList.lookup_insert_ne fun heq => he (Prod.mk.inj heq).2
        have hsame : (s.attempted live row.1 handed now returned).ledger.exporters.lookup
            (live.batchId, row.1) = some (if returned then .delivered else .failed) :=
          AList.lookup_insert _
        -- The row is still what it was when the segment was read, so the compare-and-set takes
        -- effect.
        have hadvance := @advanceStatus_of_lookup s.ledger _ _ _
          (if returned then .delivered else .failed) hlookup hdelivered
        have hcas : behaviour.serve (s.remember (.handed live row.1 handed now returned))
            (.advanceStatus live.batchId row.1 (if returned then .delivered else .failed)) =
              some (some .advanced, s.attempted live row.1 handed now returned) := by
          show some (some (s.ledger.advanceStatus live.batchId row.1 _).1,
            (s.remember _).setLedger (s.ledger.advanceStatus live.batchId row.1 _).2) = _
          rw [hadvance]
          rfl
        have hexport := @serve_export behaviour now s live row.1 handed
        rw [hreturned] at hexport
        refine ⟨if returned then .delivered else .failed, s.attempted live row.1 handed now returned,
          ?_, hfaithful, ?_, hother⟩
        · rw [if_neg (by decide), hhanded]
          refine (Prog.run_op hexport).trans ((Prog.run_op hcas).trans ?_)
          -- The status that was written is the outcome that is reported.
          cases returned <;> rfl
        · cases returned with
          | true => exact Or.inl hsame
          | false => exact Or.inr (.failed ⟨_, rfl, hhanded ▸ List.mem_singleton_self _⟩)

/-! ## One segment -/

/-- A segment has one delivery row for an exporter. -/
theorem nodup_loadExporters (t : Ledger) (b : String) :
    ((t.loadExporters b).map Prod.fst).Nodup := by
  let ofKey : String × String → Option String := fun key => if key.1 = b then some key.2 else none
  have hkeys : ((t.exporters.entries.map Sigma.fst).filterMap ofKey).Nodup := by
    refine List.Nodup.filterMap (fun key key' e he he' => ?_) t.exporters.nodupKeys
    simp only [ofKey, Option.mem_def, Option.ite_none_right_eq_some, Option.some.injEq] at he he'
    exact Prod.ext (he.1.trans he'.1.symm) (he.2.trans he'.2.symm)
  have hsame : (t.exporters.entries.filterMap fun e =>
      if e.1.1 = b then some (e.1.2, e.2) else none).map Prod.fst =
        (t.exporters.entries.map Sigma.fst).filterMap ofKey := by
    rw [List.map_filterMap, List.filterMap_map]
    refine List.filterMap_congr fun e _ => ?_
    show (if e.1.1 = b then some (e.1.2, e.2) else none).map Prod.fst =
      if e.1.1 = b then some e.1.2 else none
    split <;> rfl
  have hsorted : ((t.loadExporters b).map Prod.fst).Perm
      ((t.exporters.entries.map Sigma.fst).filterMap ofKey) := by
    rw [← hsame]
    exact (List.perm_insertionSort _ _).map _
  exact hsorted.nodup_iff.mpr hkeys

/-- One of the attempts reports the row, with the cause that it was left undelivered. -/
def Excused (fmt : CheckedFormat) (exporters : Exporters) (now : Stamp) (frames : List fmt.Frame)
    (s s' : SpoolState) (attempts : List ExporterAttempt) (batchId exporterId : String) : Prop :=
  ∃ attempt ∈ attempts, attempt.batchId = batchId ∧ attempt.exporterId = exporterId ∧
    AttemptCause fmt exporters now frames s s' batchId exporterId attempt.outcome

/-- A row that part of a pass excuses is excused by the pass. -/
theorem Excused.mono {s₀ s' t : SpoolState} {attempts all : List ExporterAttempt} {b e : String}
    (hbefore : s₀.history <+: s.history) (hafter : s'.history <+: t.history)
    (hall : attempts ⊆ all) (h : Excused fmt exporters now frames s s' attempts b e) :
    Excused fmt exporters now frames s₀ t all b e := by
  obtain ⟨attempt, hmem, hbatch, hexporter, hcause⟩ := h
  exact ⟨attempt, hall hmem, hbatch, hexporter, hcause.mono hbefore hafter⟩

/-- **The rows in order**: each is left delivered or is excused. -/
theorem run_attemptRows {segment : SegmentRow} {rows : List (String × DeliveryStatus)}
    {attempts : List ExporterAttempt}
    (hsegment : s.ledger.segments.lookup live.batchId = some segment)
    (hframes : frames = segmentFrames fmt s (s.ledger.record live.batchId segment))
    (hnodup : (rows.map Prod.fst).Nodup)
    (hrows : ∀ row ∈ rows, s.ledger.exporters.lookup (live.batchId, row.1) = some row.2) :
    ∃ more s', (attemptRows fmt.toSegmentFormat live frames exporters now rows attempts).run
        behaviour.serve s = some (.ok (attempts ++ more), s') ∧
      Faithful fmt s s' ∧
      ∀ row ∈ rows, Delivered s' live.batchId row.1 ∨
        Excused fmt exporters now frames s s' more live.batchId row.1 := by
  induction rows generalizing s attempts with
  | nil => exact ⟨[], s, by rw [List.append_nil]; rfl, Faithful.refl s, nofun⟩
  | cons row rest ih =>
      rw [List.map_cons, List.nodup_cons] at hnodup
      obtain ⟨outcome, s₁, hrun, hfaithful, hsettled, hother⟩ :=
        @run_attemptRow fmt behaviour exporters now live frames s row segment hsegment hframes
          (hrows row List.mem_cons_self)
      -- the attempt is noted, and the other rows are as they were
      let noted := s₁.remember (.attempted live row.1 now outcome)
      have hnoted : Faithful fmt s noted := hfaithful.trans (Faithful.remember rfl)
      have hsegment' : noted.ledger.segments.lookup live.batchId = some segment := by
        rw [hnoted.segments, hsegment]
      have hframes' : frames = segmentFrames fmt noted (noted.ledger.record live.batchId segment) :=
        hframes.trans (segmentFrames_congr hnoted.dirs rfl rfl).symm
      have hrest : ∀ row' ∈ rest,
          noted.ledger.exporters.lookup (live.batchId, row'.1) = some row'.2 := by
        intro row' hrow'
        have hne : row'.1 ≠ row.1 := by
          intro heq
          exact hnodup.1 (heq ▸ List.mem_map_of_mem hrow')
        show s₁.ledger.exporters.lookup (live.batchId, row'.1) = some row'.2
        rw [hother _ hne]
        exact hrows row' (List.mem_cons_of_mem _ hrow')
      obtain ⟨more, s', hrun', hfaithful', hall⟩ :=
        @ih noted (attempts ++ [⟨live.batchId, row.1, outcome⟩]) hsegment' hframes' hnodup.2 hrest
      refine ⟨⟨live.batchId, row.1, outcome⟩ :: more, s', ?_, hnoted.trans hfaithful', ?_⟩
      · rw [attemptRows, Prog.run_bind, hrun]
        show (attemptRows fmt.toSegmentFormat live frames exporters now rest _).run behaviour.serve
          noted = _
        rw [hrun', List.append_assoc]
        rfl
      · intro row' hrow'
        rcases List.mem_cons.mp hrow' with rfl | hrow'
        · rcases hsettled with hdelivered | hexcused
          · exact Or.inl (hfaithful'.kept _ _ hdelivered)
          · have hafter : s₁.history <+: s'.history :=
              (List.prefix_append _ _).trans hfaithful'.history
            exact Or.inr ⟨_, List.mem_cons_self, rfl, rfl,
              hexcused.mono List.prefix_rfl hafter⟩
        · rcases hall row' hrow' with hdelivered | hexcused
          · exact Or.inl hdelivered
          · exact Or.inr (hexcused.mono hnoted.history List.prefix_rfl (List.subset_cons_self _ _))

theorem verifyAgainstLedger_eq_ok_iff {parsed : ParsedSegment fmt.Frame} {record : SegmentRecord} :
    verifyAgainstLedger fmt parsed record = .ok () ↔ parsed.fileSha256 = record.fileSha256 ∧
      parsed.byteSize = record.byteSize ∧ parsed.header.contentSha256 = record.contentSha256 ∧
      parsed.frames.length = record.recordCount := by
  unfold verifyAgainstLedger
  split
  · rename_i hdiffers
    simp only [reduceCtorEq, false_iff]
    tauto
  · rename_i hsame
    simp only [true_iff]
    tauto

/-- What an intact file gives. -/
theorem frames_of_intact {record : SegmentRecord} (h : Intact fmt s record) :
    (segmentFrames fmt s record).length = record.recordCount ∧
      (∀ f ∈ segmentFrames fmt s record, fmt.batchId f = record.batchId) ∧
      fmt.contentSha256 ((segmentFrames fmt s record).map fmt.line) = record.contentSha256 := by
  obtain ⟨f, parsed, hstat, -, -, hread, hbatch, hverify⟩ := h
  obtain ⟨-, -, hcontent, hcount⟩ := verifyAgainstLedger_eq_ok_iff.mp hverify
  have hframes : segmentFrames fmt s record = parsed.frames := by
    unfold segmentFrames
    rw [hstat]
    dsimp only
    rw [hread]
  rw [hframes]
  exact ⟨hcount, fun x hx => (fmt.read_batch hread x hx).trans hbatch,
    (fmt.read_content hread).trans hcontent⟩

theorem requireFramesBelong_of_intact {record : SegmentRecord} (h : Intact fmt s record) :
    requireFramesBelong fmt.toSegmentFormat record (segmentFrames fmt s record) = .ok () := by
  obtain ⟨hcount, hbatch, hcontent⟩ := frames_of_intact h
  unfold requireFramesBelong
  rw [if_neg (not_not.mpr hcount), if_neg, if_neg (not_not.mpr hcontent)]
  simpa using hbatch

/-- A delivery whose record and frames pass its checks. -/
theorem run_checkedDelivery {record : SegmentRecord}
    (hread : behaviour.serve s (.readRecord record.batchId) = some (some (some live), s))
    (hsame : sameRecord live record = true)
    (hbelong : requireFramesBelong fmt.toSegmentFormat live frames = .ok ()) :
    (deliverSegment fmt.toSegmentFormat record frames exporters now).run behaviour.serve s =
      if segmentIsExpired fmt.toSegmentFormat frames now then
        some (.ok (live.exporters.map fun row => ⟨live.batchId, row.1,
          if row.2 = .delivered then .alreadyDelivered else .expired⟩), s)
      else (attemptRows fmt.toSegmentFormat live frames exporters now live.exporters []).run
        behaviour.serve s := by
  unfold deliverSegment
  refine (Prog.run_op hread).trans ?_
  simp only [Prog.bind, hsame, hbelong, Bool.not_true, Bool.false_eq_true, if_false]
  split <;> rfl

/-- **Delivering a segment** leaves every row of it delivered or excused. -/
theorem run_deliverSegment {record : SegmentRecord} {segment : SegmentRow}
    (hsegment : s.ledger.segments.lookup record.batchId = some segment)
    (hrecord : record.toSegmentRow = segment)
    (hintact : Intact fmt s (s.ledger.record record.batchId segment)) :
    ∃ attempts s', (deliverSegment fmt.toSegmentFormat record
        (segmentFrames fmt s (s.ledger.record record.batchId segment)) exporters now).run
          behaviour.serve s = some (.ok attempts, s') ∧
      Faithful fmt s s' ∧ ∀ e, s.ledger.required record.batchId e →
        Delivered s' record.batchId e ∨ Excused fmt exporters now
          (segmentFrames fmt s (s.ledger.record record.batchId segment)) s s' attempts
            record.batchId e := by
  let live := s.ledger.record record.batchId segment
  -- The re-read under the barrier finds the record that the scan found.
  have hread : behaviour.serve s (.readRecord record.batchId) = some (some (some live), s) := by
    show some (some ((s.ledger.segments.lookup record.batchId).map _), s) = _
    rw [hsegment]
    rfl
  have hsame : sameRecord live record = true := by
    simp [sameRecord, live, Ledger.record, hrecord]
  have hbelong := requireFramesBelong_of_intact hintact
  have hrows : ∀ row ∈ live.exporters,
      s.ledger.exporters.lookup (live.batchId, row.1) = some row.2 :=
    fun row hrow => Ledger.mem_loadExporters.mp hrow
  have hrequired : ∀ e, s.ledger.required record.batchId e → ∃ row ∈ live.exporters, row.1 = e := by
    intro e he
    exact List.mem_map.mp (Ledger.mem_loadExporters_map.mpr he)
  rw [run_checkedDelivery hread hsame hbelong]
  cases hexpired : segmentIsExpired fmt.toSegmentFormat (segmentFrames fmt s live) now with
  -- An expired segment is handed to nobody: its delivered rows stay so and the others are expired.
  | true =>
      refine ⟨live.exporters.map fun row => ⟨live.batchId, row.1,
        if row.2 = .delivered then .alreadyDelivered else .expired⟩, s, if_pos rfl,
        Faithful.refl s, ?_⟩
      intro e he
      obtain ⟨row, hrow, rfl⟩ := hrequired e he
      by_cases hdelivered : row.2 = .delivered
      · left
        have hstatus := hrows row hrow
        rw [hdelivered] at hstatus
        exact hstatus
      · right
        refine ⟨_, List.mem_map_of_mem hrow, rfl, rfl, ?_⟩
        rw [if_neg hdelivered]
        exact .expired hexpired
  | false =>
      -- Else each row is attempted in turn.
      obtain ⟨more, s', hrun, hfaithful, hall⟩ :=
        @run_attemptRows fmt behaviour exporters now live (segmentFrames fmt s live) s segment
          live.exporters [] hsegment rfl (nodup_loadExporters _ _) hrows
      refine ⟨more, s', (if_neg Bool.false_ne_true).trans hrun, hfaithful, ?_⟩
      intro e he
      obtain ⟨row, hrow, rfl⟩ := hrequired e he
      exact hall row hrow

/-! ## One pass -/

/-- The trusted reader gives the frames of an intact file, which is the one of its row. -/
theorem run_readTrusted {record : SegmentRecord} (h : Intact fmt s record) :
    ∃ parsed, (readTrustedSegment fmt.toSegmentFormat (segmentPath record.day record.batchId)
        false).run behaviour.serve s = some (.ok parsed, s) ∧
      parsed.frames = segmentFrames fmt s record ∧ verifyAgainstLedger fmt parsed record = .ok () := by
  obtain ⟨f, parsed, hstat, hshape, hsize, hread, -, hverify⟩ := h
  have hframes : segmentFrames fmt s record = parsed.frames := by
    unfold segmentFrames
    rw [hstat]
    dsimp only
    rw [hread]
  have hopen : behaviour.serve s (.readTrusted (segmentPath record.day record.batchId) false) =
      some (.ok f, s) := by
    show some (s.opened _, s) = _
    rw [SpoolState.opened, hstat]
    rfl
  refine ⟨parsed, ?_, hframes.symm, hverify⟩
  unfold readTrustedSegment
  refine (Prog.run_op hopen).trans ?_
  have hsize' : ¬ maxSegmentFileBytes < f.content.length := Nat.not_lt.mpr hsize
  simp only [Prog.bind, hshape, hsize', hread]
  rfl

/-- An intact file stays intact. -/
theorem Intact.of_faithful {s' : SpoolState} {b : String} {row : SegmentRow}
    (hfaithful : Faithful fmt s s') (h : Intact fmt s (s.ledger.record b row)) :
    Intact fmt s' (s'.ledger.record b row) := by
  obtain ⟨f, parsed, hstat, hintact⟩ := h
  refine ⟨f, parsed, ?_, hintact⟩
  rw [SpoolState.stat_congr hfaithful.dirs]
  exact hstat

/-- A record that the ledger listed, of an intact file. -/
structure LedgerListed (fmt : CheckedFormat) (s : SpoolState) (record : SegmentRecord) : Prop where
  row : s.ledger.segments.lookup record.batchId = some record.toSegmentRow
  intact : Intact fmt s (s.ledger.record record.batchId record.toSegmentRow)

theorem LedgerListed.of_faithful {s' : SpoolState} {record : SegmentRecord}
    (hfaithful : Faithful fmt s s') (h : LedgerListed fmt s record) : LedgerListed fmt s' record :=
  ⟨by rw [hfaithful.segments, h.row], h.intact.of_faithful hfaithful⟩

/-- Every row of a segment is delivered, or one of the attempts says why not. -/
def RowsSettled (fmt : CheckedFormat) (exporters : Exporters) (now : Stamp)
    (frames : List fmt.Frame) (s s' : SpoolState) (attempts : List ExporterAttempt)
    (batchId : String) : Prop :=
  ∀ e, s'.ledger.required batchId e →
    Delivered s' batchId e ∨ Excused fmt exporters now frames s s' attempts batchId e

/-- **One segment of a pass**. -/
theorem run_replaySegment {record : SegmentRecord} (h : LedgerListed fmt s record) :
    ∃ attempts s', (replaySegment fmt exporters now record).run behaviour.serve s =
        some (.ok ((segmentFrames fmt s record).map fmt.recordId, attempts), s') ∧
      Faithful fmt s s' ∧ RowsSettled fmt exporters now (segmentFrames fmt s record) s s' attempts
        record.batchId := by
  obtain ⟨parsed, hread, hframes, hverify⟩ := @run_readTrusted fmt behaviour s _ h.intact
  obtain ⟨attempts, s', hdeliver, hfaithful, hsettled⟩ :=
    @run_deliverSegment fmt behaviour exporters now s record _ h.row rfl h.intact
  rw [← hframes] at hdeliver
  have hsame : segmentFrames fmt s (s.ledger.record record.batchId record.toSegmentRow) =
      segmentFrames fmt s record := segmentFrames_congr rfl rfl rfl
  rw [hsame] at hsettled
  refine ⟨attempts, s', ?_, hfaithful, fun e he => hsettled e ((hfaithful.rows _ _).mp he)⟩
  unfold replaySegment
  rw [Prog.run_bind]
  have hread' : (readTrustedSegment fmt.toSegmentFormat
      (segmentPath record.day record.batchId) false).run behaviour.serve s =
        some (.ok parsed, s) := hread
  have hverify' : verifyAgainstLedger fmt parsed record = .ok () := hverify
  rw [hread', Option.bind_some]
  dsimp only
  rw [hverify']
  dsimp only
  rw [Prog.run_bind, hdeliver, Option.bind_some, ← hsame, ← hframes]
  rfl

/-- **The segments in order.** -/
theorem run_replayFrom {exporters : ExporterMap} {records : List SegmentRecord}
    {report : ReplayReport} (h : ∀ record ∈ records, LedgerListed fmt s record) :
    ∃ attempts s', (replayFrom fmt exporters now records report).run behaviour.serve s =
        some (.ok ⟨report.segments ++ records.map (·.batchId),
          report.recordIds ++ records.flatMap fun r => (segmentFrames fmt s r).map fmt.recordId,
          report.deliveryAttempts ++ attempts⟩, s') ∧
      Faithful fmt s s' ∧ ∀ record ∈ records, RowsSettled fmt (exporters record) now
        (segmentFrames fmt s record) s s' attempts record.batchId := by
  -- The induction is on the records to come, over the report so far.
  induction records generalizing s report with
  | nil =>
      refine ⟨[], s, ?_, Faithful.refl s, nofun⟩
      rw [replayFrom, List.map_nil, List.flatMap_nil, List.append_nil, List.append_nil,
        List.append_nil]
      rfl
  | cons record rest ih =>
      obtain ⟨attempts, s₁, hrun, hfaithful, hsettled⟩ :=
        @run_replaySegment fmt behaviour (exporters record) now s record
          (h record List.mem_cons_self)
      -- The first segment changed rows of its own only, so the others are listed as they were.
      have hrest : ∀ r ∈ rest, LedgerListed fmt s₁ r :=
        fun r hr => (h r (List.mem_cons_of_mem _ hr)).of_faithful hfaithful
      obtain ⟨more, s', hrun', hfaithful', hall⟩ := @ih s₁
        ⟨report.segments ++ [record.batchId],
          report.recordIds ++ (segmentFrames fmt s record).map fmt.recordId,
          report.deliveryAttempts ++ attempts⟩ hrest
      -- Nor did it change a file, so the frames of the others are read as before.
      have hids : (rest.flatMap fun r => (segmentFrames fmt s₁ r).map fmt.recordId) =
          rest.flatMap fun r => (segmentFrames fmt s r).map fmt.recordId := by
        congr 1
        exact funext fun r => by rw [segmentFrames_congr hfaithful.dirs rfl rfl]
      refine ⟨attempts ++ more, s', ?_, hfaithful.trans hfaithful', ?_⟩
      · rw [replayFrom, Prog.run_bind, hrun, Option.bind_some]
        dsimp only
        rw [hrun', hids]
        simp only [List.append_assoc, List.map_cons, List.flatMap_cons, List.singleton_append]
      · intro r hr e he
        rcases List.mem_cons.mp hr with rfl | hr
        -- What was delivered stays so, and an excuse stays one over a longer history.
        · rcases hsettled e ((hfaithful'.rows _ _).mp he) with hdelivered | hexcused
          · exact Or.inl (hfaithful'.kept _ _ hdelivered)
          · exact Or.inr (hexcused.mono List.prefix_rfl hfaithful'.history
              (List.subset_append_left _ _))
        · rw [← segmentFrames_congr hfaithful.dirs rfl rfl]
          rcases hall r hr e he with hdelivered | hexcused
          · exact Or.inl hdelivered
          · exact Or.inr (hexcused.mono hfaithful.history List.prefix_rfl
              (List.subset_append_right _ _))

end Delivery

/-! ## Any number of passes -/

/-- What the ledger lists: each committed segment once, in the order of the batch ids. -/
theorem records_ordered (t : Ledger) :
    (t.records.map (·.batchId)).Pairwise (· < ·) ∧
      ∀ b, b ∈ t.records.map (·.batchId) ↔ (t.segments.lookup b).isSome := by
  have htotal : Std.Total fun a b : SegmentRecord => a.batchId ≤ b.batchId :=
    ⟨fun a b => le_total a.batchId b.batchId⟩
  have htrans : IsTrans SegmentRecord fun a b => a.batchId ≤ b.batchId :=
    ⟨fun _ _ _ => le_trans⟩
  have hsorted : t.records.Pairwise fun a b => a.batchId ≤ b.batchId :=
    List.pairwise_insertionSort _ _
  have hperm : (t.records.map (·.batchId)).Perm (t.segments.entries.map Sigma.fst) := by
    have hmap := (List.perm_insertionSort (fun a b : SegmentRecord => a.batchId ≤ b.batchId)
      (t.segments.entries.map fun e => t.record e.1 e.2)).map (·.batchId)
    rw [List.map_map] at hmap
    exact hmap
  have hnodup : (t.records.map (·.batchId)).Nodup := hperm.nodup_iff.mpr t.segments.nodupKeys
  constructor
  · refine ((List.pairwise_map.mpr hsorted).and hnodup).imp fun h => ?_
    exact lt_of_le_of_ne h.1 h.2
  · intro b
    rw [hperm.mem_iff, AList.lookup_isSome]
    exact AList.mem_keys.symm

/-- The rows of the ledger in the order of the batch ids, whatever the statuses of the exporters. -/
theorem records_rows (t : Ledger) : t.records.map (fun r => (r.batchId, r.toSegmentRow)) =
    (t.segments.entries.map fun e => (e.1, e.2)).insertionSort fun a b => a.1 ≤ b.1 := by
  unfold Ledger.records
  rw [List.map_insertionSort (fun a b : SegmentRecord => a.batchId ≤ b.batchId)
    (fun a b : String × SegmentRow => a.1 ≤ b.1) (fun r : SegmentRecord => (r.batchId, r.toSegmentRow))
    _ (fun _ _ _ _ => Iff.rfl), List.map_map]
  rfl

/-- What a pass from `s` to `t` reports and leaves, after any passes since `s₀`. -/
structure ReplayOutcome (fmt : CheckedFormat) (pass : Pass) (s₀ s t : SpoolState)
    (report : ReplayReport) : Prop where
  /-- Every committed segment once, in the order of the batch ids. -/
  segments : report.segments = s₀.ledger.records.map (·.batchId)
  ordered : report.segments.Pairwise (· < ·)
  complete : ∀ b, b ∈ report.segments ↔ (t.ledger.segments.lookup b).isSome
  /-- The record ids in the order of the frames, as many as the ledger counts. -/
  recordIds : report.recordIds =
    s₀.ledger.records.flatMap fun r => (segmentFrames fmt s₀ r).map fmt.recordId
  count : report.recordIds.length = (s₀.ledger.records.map (·.recordCount)).sum
  /-- Every exporter row is delivered, or was reported failed, expired or without exporter: failed by
  a call of this pass that raised, expired at its time, without an exporter in its map. -/
  settled : ∀ b row, t.ledger.segments.lookup b = some row →
    RowsSettled fmt (pass.exporters (s.ledger.record b row)) pass.now
      (segmentFrames fmt s₀ (s₀.ledger.record b row)) s t report.deliveryAttempts b
  /-- Since `s₀` each call got the frames of its segment, and none came after one that returned. -/
  faithful : Faithful fmt s₀ t

section Replays

variable {fmt : CheckedFormat} {s₀ s t : SpoolState}

/-- A pass without a filter replays every record that the ledger lists. -/
theorem Pass.run_eq (pass : Pass) : pass.run fmt s =
    (replayFrom fmt pass.exporters pass.now s.ledger.records .empty).run pass.behaviour.serve s := by
  have hread : pass.behaviour.serve s .readLedger = some (some s.ledger.records, s) := rfl
  unfold Pass.run replaySegments
  refine (Prog.run_op hread).trans ?_
  rfl

/-- **A pass over intact files returns**, whatever the exporters do. -/
theorem run_replaySegments (hintact : ∀ r ∈ s₀.ledger.records, Intact fmt s₀ r)
    (hbefore : Faithful fmt s₀ s) (pass : Pass) :
    ∃ report t, pass.run fmt s = some (.ok report, t) ∧
      ReplayOutcome fmt pass s₀ s t report := by
  -- the ledger now lists the same rows, with other statuses
  have hrows : s.ledger.records.map (fun r => (r.batchId, r.toSegmentRow)) =
      s₀.ledger.records.map fun r => (r.batchId, r.toSegmentRow) := by
    rw [records_rows, records_rows, hbefore.segments]
  have hlisted : ∀ r ∈ s.ledger.records, LedgerListed fmt s r := by
    intro r hr
    obtain ⟨hrow, -⟩ := Ledger.mem_records.mp hr
    have hrow₀ : s₀.ledger.segments.lookup r.batchId = some r.toSegmentRow := by
      rw [← hbefore.segments, hrow]
    have hrecord : s₀.ledger.record r.batchId r.toSegmentRow ∈ s₀.ledger.records :=
      Ledger.mem_records.mpr ⟨hrow₀, rfl⟩
    exact ⟨hrow, (hintact _ hrecord).of_faithful hbefore⟩
  obtain ⟨attempts, t, hrun, hfaithful, hsettled⟩ :=
    @run_replayFrom fmt pass.behaviour pass.now s pass.exporters s.ledger.records .empty hlisted
  refine ⟨_, t, pass.run_eq.trans hrun, ?_⟩
  have hids : (s.ledger.records.flatMap fun r => (segmentFrames fmt s r).map fmt.recordId) =
      s₀.ledger.records.flatMap fun r => (segmentFrames fmt s₀ r).map fmt.recordId := by
    let ids : String × SegmentRow → List String := fun row =>
      (segmentFrames fmt s₀ (s₀.ledger.record row.1 row.2)).map fmt.recordId
    have hnow : ∀ r, (segmentFrames fmt s r).map fmt.recordId = ids (r.batchId, r.toSegmentRow) :=
      fun r => congrArg _ (segmentFrames_congr hbefore.dirs rfl rfl)
    have hthen : ∀ r, (segmentFrames fmt s₀ r).map fmt.recordId = ids (r.batchId, r.toSegmentRow) :=
      fun r => congrArg _ (segmentFrames_congr rfl rfl rfl)
    have hflat := congrArg (List.flatMap ids) hrows
    rw [List.flatMap_map, List.flatMap_map] at hflat
    simp only [hnow, hthen]
    exact hflat
  have hsegments : s.ledger.records.map (·.batchId) = s₀.ledger.records.map (·.batchId) := by
    have := congrArg (List.map Prod.fst) hrows
    rwa [List.map_map, List.map_map] at this
  have hcommitted : ∀ b, b ∈ s.ledger.records.map (·.batchId) ↔
      (t.ledger.segments.lookup b).isSome := by
    intro b
    rw [(records_ordered s.ledger).2 b, hfaithful.segments]
  refine ⟨hsegments, (records_ordered s.ledger).1, hcommitted, hids, ?_, ?_, hbefore.trans hfaithful⟩
  · show (s.ledger.records.flatMap fun r => (segmentFrames fmt s r).map fmt.recordId).length = _
    rw [hids, List.length_flatMap]
    congr 1
    refine List.map_congr_left fun r hr => ?_
    rw [List.length_map]
    exact (frames_of_intact (hintact r hr)).1
  · intro b row hrow
    rw [hfaithful.segments] at hrow
    have hmem : s.ledger.record b row ∈ s.ledger.records := Ledger.mem_records.mpr ⟨hrow, rfl⟩
    have hframes : segmentFrames fmt s (s.ledger.record b row) =
        segmentFrames fmt s₀ (s₀.ledger.record b row) := segmentFrames_congr hbefore.dirs rfl rfl
    rw [← hframes]
    exact hsettled _ hmem

/-- Passes keep what one keeps. -/
theorem Replays.faithful {passes : List (Pass × ReplayReport)}
    (hintact : ∀ r ∈ s₀.ledger.records, Intact fmt s₀ r) (hbefore : Faithful fmt s₀ s)
    (h : Replays fmt s passes t) : Faithful fmt s₀ t := by
  induction h with
  | done s => exact hbefore
  | pass hrun hrest ih =>
      obtain ⟨report, t', hrun', houtcome⟩ := run_replaySegments hintact hbefore _
      rw [hrun] at hrun'
      obtain ⟨-, rfl⟩ := Prod.mk.inj (Option.some.inj hrun')
      exact ih houtcome.faithful

/-- **Replay is complete and idempotent**: after any number of passes the next one returns, with the
same segments and record ids as every other. -/
theorem replays_complete {passes : List (Pass × ReplayReport)}
    (hintact : ∀ r ∈ s₀.ledger.records, Intact fmt s₀ r) (h : Replays fmt s₀ passes s) (pass : Pass) :
    ∃ report t, pass.run fmt s = some (.ok report, t) ∧ ReplayOutcome fmt pass s₀ s t report :=
  run_replaySegments hintact (h.faithful hintact (Faithful.refl s₀)) pass

end Replays

/-! ## A sample replay -/

/-- The sample format with the id of its one record. -/
def checkedSample : CheckedFormat where
  toSegmentFormat := sampleFormat
  recordId _ := "r1"
  read_batch := by
    intro b parsed h frame _
    dsimp only [sampleFormat] at h
    split at h
    · cases h
      rfl
    · cases h
  read_content := by
    intro b parsed h
    dsimp only [sampleFormat] at h
    split at h
    · cases h
      rfl
    · cases h

/-- The sample segment after its commit. -/
def replayed : SpoolState where
  dirs := AList.singleton (.pending, Stamp.day 3)
    ⟨AList.singleton (segmentName "b1") ⟨[0], 0, .private⟩, []⟩
  ledger :=
    { segments := AList.singleton "b1" (committedRecord sampleFormat sampleHeader [0] 3).toSegmentRow
      exporters := AList.singleton ("b1", "x") .pending
      retirements := ∅
      cursors := ∅ }
  nextInode := 1
  history := []

/-- A pass with the exporter `x`, which returns or raises. -/
def samplePass (returns : Bool) : Pass where
  exporters _ := AList.singleton "x" (some "x")
  now := 4
  behaviour _ _ _ _ _ := returns

/-- The exporter raised in the pass before; now it returns. -/
theorem replays_complete_sample : ∃ t report u,
    (samplePass false).run checkedSample replayed =
      some (.ok ⟨["b1"], ["r1"], [⟨"b1", "x", .failed⟩]⟩, t) ∧
    (samplePass true).run checkedSample t = some (.ok report, u) ∧
    ReplayOutcome checkedSample (samplePass true) replayed t u report := by
  have hintact : ∀ r ∈ replayed.ledger.records, Intact checkedSample replayed r := by
    intro r hr
    obtain rfl : r = replayed.ledger.record "b1"
        (committedRecord sampleFormat sampleHeader [0] 3).toSegmentRow :=
      List.mem_singleton.mp hr
    exact ⟨⟨[0], 0, .private⟩, ⟨sampleHeader, [sampleExpiry], 1, sampleDigest [0]⟩, by decide +kernel, rfl,
      by decide, rfl, rfl, by decide +kernel⟩
  obtain ⟨t, hfirst⟩ : ∃ t, (samplePass false).run checkedSample replayed =
      some (.ok ⟨["b1"], ["r1"], [⟨"b1", "x", .failed⟩]⟩, t) := ⟨_, rfl⟩
  obtain ⟨report, u, hrun, houtcome⟩ :=
    replays_complete hintact (.pass hfirst (.done t)) (samplePass true)
  exact ⟨t, report, u, hfirst, hrun, houtcome⟩

end Milhouse
