import Milhouse.Alerts.Pipeline
import Milhouse.Spool.Acknowledge

/-!
# Milhouse — what a commit of the stages is in the spool

`AlertOp.commit` is one step of the stages, and `commitSegment` is a program over the files and the
ledger of the spool, which may fail in every operation and be cut anywhere.

* **`AlertStore.commit_refines`** — whatever happens in it, the step has a choice with that result.
-/

namespace Milhouse

open Interaction Interaction.Prog

/-- **A commit of the spool is a commit of the stages**: wherever it is cut and whatever fails in
it, the step can answer as it does and remembers the segment exactly if the record is live. -/
theorem AlertStore.commit_refines {fmt : SegmentFormat} (frame : SpoolFrame → fmt.Frame)
    {header : SegmentHeaderV1} {frames : List SpoolFrame} {stamp : Stamp} {now : Instant}
    {s s' : SpoolState} {tape : List Choice} {p : SpoolProg (Except SpoolError SegmentRecord)}
    (hsound : s.ledger.Sound)
    (hplay : (commitSegment fmt header (frames.map frame) stamp).play spoolHandler s tape =
      some (p, s')) (t : AlertStore) :
    ∃ choice answer t', t.perform (.commit header frames now) choice = some (answer, t') ∧
      (∀ result, p.value? = some result → answer.isOk = result.isOk) ∧
      (t' = t.remember (.committed header frames) ↔
        ∃ record, Committed fmt header (frames.map frame) stamp record s') := by
  have hok : ∀ record, p.value? = some (.ok record) →
      Committed fmt header (frames.map frame) stamp record s' := fun record hvalue =>
    ((commitSegment_truthful hsound).value Calm.refl hplay hvalue).2 record rfl
  have hgrows : t ≠ t.remember (.committed header frames) := fun heq =>
    absurd (congrArg (fun u => u.history.length) heq) (by simp [AlertStore.remember])
  cases hvalue : p.value? with
  | none =>
      by_cases hlive : ∃ record, Committed fmt header (frames.map frame) stamp record s'
      · exact ⟨.ok, .ok (), _, rfl, fun result h => absurd h.symm (Option.some_ne_none result),
          iff_of_true rfl hlive⟩
      · exact ⟨.fail, .error segmentNotCommitted, t, rfl,
          fun result h => absurd h.symm (Option.some_ne_none result), iff_of_false hgrows hlive⟩
  | some result =>
      cases result with
      | ok record =>
          refine ⟨.ok, .ok (), _, rfl, fun result h => ?_, iff_of_true rfl ⟨record, hok record hvalue⟩⟩
          obtain rfl := Option.some.inj h
          rfl
      | error e =>
          -- the error may come after the row is in, as the answer of a lost commit does
          by_cases hlive : ∃ record, Committed fmt header (frames.map frame) stamp record s'
          · refine ⟨.lost, .error segmentNotCommitted, _, rfl, fun result h => ?_,
              iff_of_true rfl hlive⟩
            obtain rfl := Option.some.inj h
            rfl
          · refine ⟨.fail, .error segmentNotCommitted, t, rfl, fun result h => ?_,
              iff_of_false hgrows hlive⟩
            obtain rfl := Option.some.inj h
            rfl

end Milhouse
