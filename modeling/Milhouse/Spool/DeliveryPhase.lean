import Milhouse.Spool.Deliver

/-!
# Milhouse — where a delivery is, and what it may do there

A delivery reloads its row, and then goes through the exporters of the row: it hands the frames to
one, and if that returned normally it tries the compare-and-set, and if that advanced the row it
reports the attempt as delivered. `Phase` is where it is in this, with the reloaded row; a program
`Follows` a phase when each operation it can perform is allowed there, and it follows the next phase
after every response.

* **`deliverSegment_follows`** — a delivery follows its phases from the start.
-/

namespace Milhouse

open Interaction Interaction.Prog

/-- Frames that may be handed over for a row: the row's own, and all of them unexpired. -/
structure Handable (fmt : SegmentFormat) (r : SegmentRecord) (frames : List HandedFrame)
    (now : Stamp) : Prop where
  count : frames.length = r.recordCount
  batchId : ∀ f ∈ frames, f.batchId = r.batchId
  content : fmt.contentSha256 (frames.map (·.line)) = r.contentSha256
  unexpired : ∀ f ∈ frames, now < f.expiresAt

inductive Phase where
  /-- Before the row is reloaded. -/
  | before
  /-- Between two exporters of the row. -/
  | turn (r : SegmentRecord)
  /-- The exporter returned normally; the row is not advanced yet. -/
  | handed (r : SegmentRecord) (exporterId : String) (now : Stamp)
  /-- The row was advanced to `delivered`; the attempt is not reported yet. -/
  | won (r : SegmentRecord) (exporterId : String) (now : Stamp)

section Phases

variable (fmt : SegmentFormat)

/-- What a delivery may do in a phase. -/
def Phase.Allows : Phase → SpoolOp → Prop
  | .before, o => match o with
      | .readRecord _ => True
      | _ => False
  | .turn r, o => match o with
      | .export r' _ frames now => r' = r ∧ Handable fmt r frames now
      | .advanceStatus b _ status => b = r.batchId ∧ status = .failed
      | .note (.attempted r' _ _ outcome) => r' = r ∧ outcome ≠ .delivered
      | _ => False
  | .handed r e _, o => match o with
      | .advanceStatus b e' status => b = r.batchId ∧ e' = e ∧ status = .delivered
      | _ => False
  | .won r e now, o => match o with
      | .note (.attempted r' e' now' outcome) =>
          r' = r ∧ e' = e ∧ now' = now ∧ outcome = .delivered
      | _ => False

/-- The phase after an operation and its response. -/
def Phase.next : Phase → (o : SpoolOp) → o.Resp → Phase
  | .before, o, x => match o, x with
      | .readRecord _, some (some live) => .turn live
      | _, _ => .before
  | .turn r, o, x => match o, x with
      | .export _ e _ now, true => .handed r e now
      | _, _ => .turn r
  | .handed r e now, o, x => match o, x with
      | .advanceStatus .., some .advanced => .won r e now
      | _, _ => .turn r
  | .won r _ _, _, _ => .turn r

/-- Whatever the program performs is allowed in its phase. -/
def Follows : Phase → SpoolProg Unit → Prop
  | _, .ret _ => True
  | phase, .op o k => phase.Allows fmt o ∧ ∀ x, Follows (phase.next o x) (k x)

end Phases

section Delivery

variable {fmt : SegmentFormat} {live record : SegmentRecord} {frames : List fmt.Frame}
  {exporters : Exporters} {now : Stamp}

/-- Frames that pass the checks of `deliver_segment` may be handed over. -/
theorem handable_of_checks (hbelong : requireFramesBelong fmt live frames = .ok ())
    (hexpired : segmentIsExpired fmt frames now = false) :
    Handable fmt live (frames.map fmt.handed) now := by
  unfold requireFramesBelong at hbelong
  split at hbelong
  · cases hbelong
  · rename_i hcount
    split at hbelong
    · cases hbelong
    · rename_i hbatch
      split at hbelong
      · cases hbelong
      · rename_i hcontent
        refine ⟨by simpa using hcount, ?_, ?_, ?_⟩
        · intro f hf
          obtain ⟨g, hg, rfl⟩ := List.mem_map.mp hf
          have hall : ∀ x ∈ frames, fmt.batchId x = live.batchId := by simpa using hbatch
          exact hall g hg
        · rw [List.map_map]
          exact not_not.mp hcontent
        · -- the earliest expiry is later than `now`, so every expiry is
          intro f hf
          obtain ⟨g, hg, rfl⟩ := List.mem_map.mp hf
          have hmem : fmt.expiresAt g ∈ frames.map fmt.expiresAt := List.mem_map_of_mem hg
          unfold segmentIsExpired at hexpired
          cases hmin : (frames.map fmt.expiresAt).min? with
          | none => simp [List.min?_eq_none_iff.mp hmin] at hmem
          | some earliest =>
              rw [hmin] at hexpired
              have hle : earliest ≤ fmt.expiresAt g := (List.min?_eq_some_iff.mp hmin).2 _ hmem
              have hlate : now < earliest := by simpa using hexpired
              exact Nat.lt_of_lt_of_le hlate hle

/-- **One turn**: an attempt that is reported as delivered was handed over and won. -/
theorem attemptRow_follows {row : String × DeliveryStatus}
    {f : Except SpoolError AttemptOutcome → SpoolProg Unit}
    (hhand : Handable fmt live (frames.map fmt.handed) now)
    (herror : ∀ e, Follows fmt (.turn live) (f (.error e)))
    (hother : ∀ outcome, outcome ≠ .delivered → Follows fmt (.turn live) (f (.ok outcome)))
    (hwon : Follows fmt (.won live row.1 now) (f (.ok .delivered))) :
    Follows fmt (.turn live) (attemptRow fmt live frames exporters now row >>= f) := by
  unfold attemptRow
  split
  · exact hother _ nofun
  · split
    · exact hother _ nofun
    · refine ⟨⟨rfl, hhand⟩, fun returned => ?_⟩
      cases returned with
      | false =>
          refine ⟨⟨rfl, rfl⟩, fun result => ?_⟩
          rcases result with _ | _ | _ | _
          · exact herror _
          all_goals exact hother _ nofun
      | true =>
          refine ⟨⟨rfl, rfl, rfl⟩, fun result => ?_⟩
          rcases result with _ | _ | _ | _
          · exact herror _
          · exact hwon
          · exact hother _ nofun
          · exact hother _ nofun

theorem attemptRows_follows {rows : List (String × DeliveryStatus)}
    {attempts : List ExporterAttempt}
    (hhand : Handable fmt live (frames.map fmt.handed) now) :
    Follows fmt (.turn live)
      (attemptRows fmt live frames exporters now rows attempts >>= fun _ => pure ()) := by
  induction rows generalizing attempts with
  | nil => trivial
  | cons row rest ih =>
      unfold attemptRows
      rw [Prog.bind_assoc]
      refine attemptRow_follows hhand (fun e => trivial) (fun outcome hne => ?_) ?_
      · exact ⟨⟨rfl, hne⟩, fun _ => ih⟩
      · exact ⟨⟨rfl, rfl, rfl, rfl⟩, fun _ => ih⟩

/-- **A delivery follows its phases from the start.** -/
theorem deliverSegment_follows :
    Follows fmt .before
      (deliverSegment fmt record frames exporters now >>= fun _ => pure ()) := by
  unfold deliverSegment
  refine ⟨trivial, fun found => ?_⟩
  rcases found with _ | _ | live
  · trivial
  · trivial
  · dsimp only [Prog.bind, Phase.next]
    cases sameRecord live record with
    | false => trivial
    | true =>
        cases hbelong : requireFramesBelong fmt live frames with
        | error e => trivial
        | ok =>
            cases hexpired : segmentIsExpired fmt frames now with
            | true => trivial
            | false => exact attemptRows_follows (handable_of_checks hbelong hexpired)

end Delivery

end Milhouse
