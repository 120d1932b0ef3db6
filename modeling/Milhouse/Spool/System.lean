import Milhouse.Lib.Transition
import Milhouse.Spool.Commit
import Milhouse.Spool.Deliver

/-!
# Milhouse — the spool as a system of processes

A `World` is the durable store with the programs that run on it: one section (a commit, a
reconciliation pass or a retention pass, each under the exclusive side of the commit barrier) and
any number of deliveries under the shared side. `World.step` takes one `Move`: a program performs
one operation, starts, returns or is killed, a source cursor advances, a foreign process puts a
file of its own into the spool, or the machine loses power, which ends every process.

A section keeps the exclusive side until it ends; a commit that has passed its reconciliation
converts it, and deliveries may begin from there on.
-/

namespace Milhouse

open Interaction Transition

/-- What runs under the exclusive side of the commit barrier. -/
inductive Section (fmt : SegmentFormat) where
  | commit (header : SegmentHeaderV1) (frames : List fmt.Frame) (stamp : Stamp)
  | reconcile
  | retain (now : Stamp)

/-- The program of a section; what it returns is its caller's. -/
def Section.prog {fmt : SegmentFormat} : Section fmt → SpoolProg Unit
  | .commit header frames stamp => commitSegment fmt header frames stamp >>= fun _ => pure ()
  | .reconcile => reconcilePass fmt >>= fun _ => pure ()
  | .retain now => retentionApply fmt now >>= fun _ => pure ()

/-- The program of a delivery. -/
def deliveryProg (fmt : SegmentFormat) (record : SegmentRecord) (frames : List fmt.Frame)
    (exporters : Exporters) (now : Stamp) : SpoolProg Unit :=
  deliverSegment fmt record frames exporters now >>= fun _ => pure ()

/-- The section that holds the barrier. -/
structure Holder where
  prog : SpoolProg Unit
  exclusive : Bool

structure World where
  store : SpoolState
  running : Option Holder
  deliveries : Table Nat (SpoolProg Unit)

/-- Nothing stored, nothing running. -/
def World.init : World := ⟨.empty, none, ∅⟩

/-- One step of the system. -/
inductive Move (fmt : SegmentFormat) where
  | start (sec : Section fmt)
  /-- The section performs its next operation. -/
  | run (c : Choice)
  /-- The section returns, or its process is killed; the barrier is free either way. -/
  | stop
  | deliver (i : Nat) (record : SegmentRecord) (frames : List fmt.Frame) (exporters : Exporters)
      (now : Stamp)
  | runDelivery (i : Nat) (c : Choice)
  | stopDelivery (i : Nat)
  | advanceCursor (source position batchId : String) (now : Stamp) (revision : Nat)
  /-- A foreign process creates a file. -/
  | plant (p : Path) (f : File)
  /-- The machine loses power. -/
  | crash (kept : Tree × Day → Nat)

/-- What is left of the exclusive side after an operation: a `share` that succeeds converts it. -/
def staysExclusive (exclusive : Bool) : (o : SpoolOp) → o.Resp → Bool
  | .share, true => false
  | _, _ => exclusive

namespace World

/-- A delivery can take the shared side. -/
def sharable (w : World) : Bool := w.running.all fun h => !h.exclusive

/-- The section performs one operation. -/
def runSection (w : World) (h : Holder) (c : Choice) : Option World :=
  match h.prog with
  | .ret _ => none
  | .op o k => (w.store.perform o c).map fun rs =>
      { w with store := rs.2, running := some ⟨k rs.1, staysExclusive h.exclusive o rs.1⟩ }

/-- A delivery performs one operation. -/
def runDelivery (w : World) (i : Nat) (p : SpoolProg Unit) (c : Choice) : Option World :=
  match p with
  | .ret _ => none
  | .op o k => (w.store.perform o c).map fun rs =>
      { w with store := rs.2, deliveries := w.deliveries.insert i (k rs.1) }

/-- The inode of a planted file is no file's of its directory, and is not given out again. -/
def plant (w : World) (p : Path) (f : File) : Option World :=
  if (w.store.file p).isNone ∧
      (w.store.dir p.tree p.day).current.entries.all fun e => e.2.inode ≠ f.inode then
    some { w with store :=
      { w.store.put p f with nextInode := max w.store.nextInode (f.inode + 1) } }
  else none

def step (fmt : SegmentFormat) (w : World) : Move fmt → Option World
  | .start sec =>
      if w.running.isNone ∧ w.deliveries.entries.isEmpty then
        some { w with running := some ⟨sec.prog, true⟩ }
      else none
  | .run c => w.running.bind fun h => w.runSection h c
  | .stop => if w.running.isSome then some { w with running := none } else none
  | .deliver i record frames exporters now =>
      if w.sharable ∧ (w.deliveries.lookup i).isNone then
        let prog := deliveryProg fmt record frames exporters now
        some { w with deliveries := w.deliveries.insert i prog }
      else none
  | .runDelivery i c => (w.deliveries.lookup i).bind fun p => w.runDelivery i p c
  | .stopDelivery i =>
      if (w.deliveries.lookup i).isSome then
        some { w with deliveries := w.deliveries.erase i }
      else none
  | .advanceCursor source position batchId now revision =>
      match w.store.ledger.advanceCursor source position batchId now revision with
      | .ok t => some { w with store := w.store.setLedger t }
      | .error _ => none
  | .plant p f => w.plant p f
  | .crash kept => some ⟨w.store.crash kept, none, ∅⟩

end World

/-- The spool system. -/
def spool (fmt : SegmentFormat) : System World (Move fmt) := .ofFun .init (World.step fmt)

/-! ## What one step can do -/

/-- Every world one step can lead to. -/
inductive World.Moved (fmt : SegmentFormat) (w : World) : World → Prop
  | start (sec : Section fmt) (hidle : w.running = none)
      (hquiet : ∀ i, w.deliveries.lookup i = none) :
      Moved fmt w { w with running := some ⟨sec.prog, true⟩ }
  | run (h : Holder) {o : SpoolOp} {k : o.Resp → SpoolProg Unit} {c : Choice} {r : o.Resp}
      {s' : SpoolState} (hrunning : w.running = some h) (hprog : h.prog = .op o k)
      (hperform : w.store.perform o c = some (r, s')) :
      Moved fmt w
        { w with store := s', running := some ⟨k r, staysExclusive h.exclusive o r⟩ }
  | stop : Moved fmt w { w with running := none }
  | deliver (i : Nat) (record : SegmentRecord) (frames : List fmt.Frame) (exporters : Exporters)
      (now : Stamp) (hshare : w.sharable) (hfresh : w.deliveries.lookup i = none) :
      Moved fmt w
        { w with deliveries := w.deliveries.insert i (deliveryProg fmt record frames exporters now) }
  | runDelivery (i : Nat) {o : SpoolOp} {k : o.Resp → SpoolProg Unit} {c : Choice} {r : o.Resp}
      {s' : SpoolState} (hprog : w.deliveries.lookup i = some (.op o k))
      (hperform : w.store.perform o c = some (r, s')) :
      Moved fmt w { w with store := s', deliveries := w.deliveries.insert i (k r) }
  | stopDelivery (i : Nat) : Moved fmt w { w with deliveries := w.deliveries.erase i }
  | advanceCursor {source position batchId : String} {now : Stamp} {revision : Nat} {t : Ledger}
      (hadvance : w.store.ledger.advanceCursor source position batchId now revision = .ok t) :
      Moved fmt w { w with store := w.store.setLedger t }
  | plant (p : Path) (f : File) (habsent : w.store.file p = none)
      (hinode : w.store.freshInode p f.inode) :
      Moved fmt w { w with store :=
        { w.store.put p f with nextInode := max w.store.nextInode (f.inode + 1) } }
  | crash (kept : Tree × Day → Nat) : Moved fmt w ⟨w.store.crash kept, none, ∅⟩

section Inversion

variable {fmt : SegmentFormat} {w w' : World}

/-- **The inversion of a step.** -/
theorem World.step_moved {m : Move fmt} (h : w.step fmt m = some w') : w.Moved fmt w' := by
  cases m with
  | start sec =>
      simp only [step] at h
      split at h
      · rename_i hfree
        obtain rfl := Option.some.inj h
        -- A section starts when neither another one nor a delivery is running.
        refine .start sec (Option.isNone_iff_eq_none.mp hfree.1) fun i => ?_
        rw [AList.lookup_eq_none, AList.mem_keys, AList.keys, List.isEmpty_iff.mp hfree.2]
        simp
      · cases h
  -- The running section takes its next call, with the answer that the choice gives it.
  | run c =>
      obtain ⟨holder, hrunning, h⟩ := Option.bind_eq_some_iff.mp h
      unfold runSection at h
      split at h
      · cases h
      · rename_i o k hprog
        obtain ⟨⟨r, s'⟩, hperform, rfl⟩ := Option.map_eq_some_iff.mp h
        exact .run holder hrunning hprog hperform
  -- A process can be killed at any of its calls.
  | stop =>
      simp only [step] at h
      split at h
      · obtain rfl := Option.some.inj h
        exact .stop
      · cases h
  | deliver i record frames exporters now =>
      simp only [step] at h
      split at h
      · rename_i hfree
        obtain rfl := Option.some.inj h
        exact .deliver i record frames exporters now hfree.1
          (Option.isNone_iff_eq_none.mp hfree.2)
      · cases h
  | runDelivery i c =>
      obtain ⟨p, hlookup, h⟩ := Option.bind_eq_some_iff.mp h
      unfold World.runDelivery at h
      split at h
      · cases h
      · rename_i o k
        obtain ⟨⟨r, s'⟩, hperform, rfl⟩ := Option.map_eq_some_iff.mp h
        exact .runDelivery i hlookup hperform
  | stopDelivery i =>
      simp only [step] at h
      split at h
      · obtain rfl := Option.some.inj h
        exact .stopDelivery i
      · cases h
  | advanceCursor source position batchId now revision =>
      simp only [step] at h
      split at h
      · rename_i t hadvance
        obtain rfl := Option.some.inj h
        exact .advanceCursor hadvance
      · cases h
  | plant p f =>
      simp only [step, World.plant] at h
      split at h
      · rename_i hfree
        obtain rfl := Option.some.inj h
        refine .plant p f (Option.isNone_iff_eq_none.mp hfree.1) fun e he => ?_
        simpa using List.all_eq_true.mp hfree.2 e he
      · cases h
  | crash kept =>
      obtain rfl := Option.some.inj h
      exact .crash kept

end Inversion

end Milhouse
