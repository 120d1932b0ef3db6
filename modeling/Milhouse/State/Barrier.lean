import Milhouse.Lib.Flock
import Milhouse.Lib.Interaction
import Milhouse.Lib.Transition
import Milhouse.State.Database

/-!
# Milhouse — the global commit barrier

The barrier is two lock files: a shared holder takes the gate shared, takes the main lock shared and
gives the gate back; an exclusive holder keeps the gate exclusive for its whole hold; a writer that
recovers first converts its main lock from exclusive to shared while it still holds the gate. The
three context managers are programs over the single lock operations, with their bodies between
`enter` and `leave`; `barrier` is the system of any number of calls, in any processes and threads.
-/

namespace Milhouse

open Interaction Transition Flock

/-! ## The operations -/

inductive LockFile | main | gate
  deriving DecidableEq, Repr

/-- Who calls: the process, the thread in it, and the `GlobalCommitBarrier` instance. -/
structure Caller where
  process : Nat
  thread : Nat
  self : Nat
  deriving DecidableEq, Repr

/-- The mutable fields of a barrier instance, `_exclusive_depth` and `_exclusive_thread`. The paths
are set once, so `_exclusive_key` always is the key of the instance. -/
structure BarrierFields where
  depth : Nat
  thread : Option Nat
  deriving DecidableEq, Repr

/-- The exclusive hold of the instance belongs to the caller's thread. -/
def BarrierFields.reenters (fields : BarrierFields) (me : Caller) : Bool :=
  0 < fields.depth && fields.thread = some me.thread

inductive Flocked | granted | busy | errored
  deriving DecidableEq, Repr

/-- Where the body of a hold is. -/
inductive HoldPhase
  /-- Inside `shared()`. -/
  | shared
  /-- Inside `exclusive()`. -/
  | exclusive
  /-- Inside `exclusive_then_shared()`, before the transition. -/
  | recovery
  /-- Inside the transition, while the main lock is converted. -/
  | handover
  /-- Inside `exclusive_then_shared()`, from `transitioned = True`. -/
  | publish
  deriving DecidableEq, Repr

/-- The operations; `level` counts the calls that enclose the call in its thread, each of which has
descriptors of its own. -/
inductive BarrierOp
  /-- `_secure_lock_descriptor`. -/
  | openLock (level : Nat) (file : LockFile)
  /-- `fcntl.flock(descriptor, mode)`, with `LOCK_NB` unless `blocking`. -/
  | flock (level : Nat) (file : LockFile) (mode : Mode) (blocking : Bool)
  /-- `_release`. -/
  | unlock (level : Nat) (file : LockFile)
  /-- `_close`. -/
  | close (level : Nat) (file : LockFile)
  /-- Read the fields of an instance. -/
  | fields (me : Caller)
  /-- `self._exclusive_depth += 1`. -/
  | deepen (me : Caller)
  /-- `self._exclusive_depth -= 1`. -/
  | shallow (me : Caller)
  /-- `_EXCLUSIVE_OWNERS.get(key[0])`. -/
  | owner (process : Nat)
  /-- Set the fields and `_EXCLUSIVE_OWNERS[key[0]]`. -/
  | register (me : Caller)
  /-- Reset the fields, and delete the owner where it is this instance. -/
  | unregister (me : Caller)
  /-- The body comes to a phase. -/
  | enter (phase : HoldPhase)
  /-- The body ends. -/
  | leave

def BarrierOp.Resp : BarrierOp → Type
  | .openLock .. => Except StateError Unit
  | .flock .. => Flocked
  | .fields _ => BarrierFields
  | .owner _ => Option (Nat × Nat)
  | _ => Unit

def barrierSignature : Signature := ⟨BarrierOp, BarrierOp.Resp⟩

abbrev BarrierProg := Prog barrierSignature

namespace GlobalCommitBarrier

/-! ## The context managers -/

def notAcquired : StateError := ⟨"MH_STATE_BARRIER", "the commit barrier could not be acquired"⟩
def held : StateError := ⟨"MH_STATE_BARRIER_BUSY", "the commit barrier is held"⟩
def anotherInstance : StateError :=
  ⟨"MH_STATE_BARRIER", "another barrier instance already holds this exclusive lock"⟩
def transitionUnavailable : StateError :=
  ⟨"MH_STATE_BARRIER", "the writer barrier phase transition is unavailable"⟩

/-- `_acquire`. -/
def acquire (level : Nat) (file : LockFile) (mode : Mode) (blocking : Bool) :
    BarrierProg (Except StateError Unit) :=
  .op (.flock level file mode blocking) fun
    | .granted => .ret (.ok ())
    | .busy => .ret (.error held)
    | .errored => .ret (.error notAcquired)

def perform (o : BarrierOp) : BarrierProg Unit := .op o fun _ => .ret ()

/-- `if flag: …`. -/
def when (flag : Bool) (p : BarrierProg Unit) : BarrierProg Unit := if flag then p else .ret ()

/-- What a call holds: `gate_fd is not None`, `gate_held` and `main_held`. -/
structure Held where
  gateFd : Bool
  gate : Bool
  main : Bool

/-- The `finally` of `shared`. -/
def endShared (level : Nat) (has : Held) : BarrierProg Unit := do
  when (has.gate && has.gateFd) (.op (.unlock level .gate) .ret)
  when has.main (.op (.unlock level .main) .ret)
  when has.gateFd (.op (.close level .gate) .ret)
  .op (.close level .main) .ret

/-- The `finally` of `exclusive` and of `exclusive_then_shared`. -/
def endExclusive (level : Nat) (has : Held) : BarrierProg Unit := do
  when has.main (.op (.unlock level .main) .ret)
  when (has.gate && has.gateFd) (.op (.unlock level .gate) .ret)
  when has.gateFd (.op (.close level .gate) .ret)
  .op (.close level .main) .ret

/-- `finally` after an exception. -/
def raising (cleanup : BarrierProg Unit) (e : StateError) : BarrierProg (Except StateError Unit) :=
  cleanup >>= fun _ => .ret (.error e)

/-- The way into a hold: both descriptors, the gate and the main lock, with `cleanup` for what was
taken before a failure. -/
def entering (level : Nat) (mode : Mode) (blocking : Bool) (cleanup : Held → BarrierProg Unit)
    (inside : BarrierProg (Except StateError Unit)) : BarrierProg (Except StateError Unit) :=
  .op (.openLock level .main) fun
  | .error e => .ret (.error e)
  | .ok () => .op (.openLock level .gate) fun
  | .error e => raising (cleanup ⟨false, false, false⟩) e
  | .ok () => acquire level .gate mode blocking >>= fun
  | .error e => raising (cleanup ⟨true, false, false⟩) e
  | .ok () => acquire level .main mode blocking >>= fun
  | .error e => raising (cleanup ⟨true, true, false⟩) e
  | .ok () => inside

/-- `shared`. -/
def shared (level : Nat) (blocking : Bool) : BarrierProg (Except StateError Unit) :=
  entering level .shared blocking (endShared level) do
    perform (.unlock level .gate)
    perform (.enter .shared)
    perform .leave
    endShared level ⟨true, false, true⟩
    return .ok ()

/-- `owner is not None and owner[1] == me and owner[0] is not self`. -/
def ownedElsewhere (owner : Option (Nat × Nat)) (me : Caller) : Bool :=
  owner.any fun o => o.2 = me.thread && o.1 ≠ me.self

/-- `exclusive`, as a context manager of its body. -/
def exclusive (level : Nat) (me : Caller) (blocking : Bool) (body : BarrierProg Unit) :
    BarrierProg (Except StateError Unit) :=
  .op (.fields me) fun (fields : BarrierFields) =>
  if fields.reenters me then do
    perform (.deepen me)
    body
    perform (.shallow me)
    return .ok ()
  else .op (.owner me.process) fun (owner : Option (Nat × Nat)) =>
  if ownedElsewhere owner me then .ret (.error anotherInstance)
  else entering level .exclusive blocking (endExclusive level) do
    perform (.register me)
    perform (.enter .exclusive)
    body
    perform .leave
    perform (.unregister me)
    endExclusive level ⟨true, true, true⟩
    return .ok ()

/-- The variables the transition callback closes over. -/
structure Writer where
  active : Bool
  transitioned : Bool
  gateHeld : Bool
  mainHeld : Bool

/-- `_transition`. -/
def transition (level : Nat) (w : Writer) : BarrierProg (Except StateError Unit × Writer) :=
  if !w.active || w.transitioned || !w.gateHeld || !w.mainHeld then
    .ret (.error transitionUnavailable, w)
  else .op (.enter .handover) fun _ => acquire level .main .shared true >>= fun
  | .error e => .op (.enter .recovery) fun _ => .ret (.error e, w)
  | .ok () => .op (.enter .publish) fun _ => .op (.unlock level .gate) fun _ =>
    .ret (.ok (), { w with transitioned := true, gateHeld := false })

/-- A body that calls the transition `attempts` times, whatever comes of it. -/
def attempt (level : Nat) (w : Writer) : Nat → BarrierProg Writer
  | 0 => .ret w
  | attempts + 1 => transition level w >>= fun r => attempt level r.2 attempts

/-- `exclusive_then_shared`. -/
def exclusiveThenShared (level : Nat) (blocking : Bool) (attempts : Nat) :
    BarrierProg (Except StateError Unit) :=
  entering level .exclusive blocking (endExclusive level) do
    perform (.enter .recovery)
    let w ← attempt level ⟨true, false, true, true⟩ attempts
    perform .leave
    endExclusive level ⟨true, w.gateHeld, w.mainHeld⟩
    return .ok ()

/-! ## What a thread runs -/

/-- The calls the body of an exclusive hold makes of `exclusive()`, on its own or on another
instance, one after the other, each with a body of its own. -/
inductive Body
  | done
  | exclusive (self : Nat) (blocking : Bool) (inner next : Body)

def Body.prog (level : Nat) (me : Caller) : Body → BarrierProg Unit
  | .done => .ret ()
  | .exclusive self blocking inner next =>
      GlobalCommitBarrier.exclusive (level + 1) { me with self := self } blocking
        (inner.prog (level + 1) { me with self := self }) >>= fun _ => next.prog level me

inductive Request
  | shared (blocking : Bool)
  | exclusive (blocking : Bool) (body : Body)
  | writer (blocking : Bool) (attempts : Nat)

def Request.prog (me : Caller) : Request → BarrierProg Unit
  | .shared blocking => GlobalCommitBarrier.shared 0 blocking >>= fun _ => .ret ()
  | .exclusive blocking body =>
      GlobalCommitBarrier.exclusive 0 me blocking (body.prog 0 me) >>= fun _ => .ret ()
  | .writer blocking attempts => exclusiveThenShared 0 blocking attempts >>= fun _ => .ret ()

/-- The phases of a request. -/
def Request.phases : Request → HoldPhase → Bool
  | .shared _, .shared => true
  | .exclusive _ _, .exclusive => true
  | .writer _ _, .recovery | .writer _ _, .handover | .writer _ _, .publish => true
  | _, _ => false

def Request.isExclusive : Request → Bool
  | .exclusive _ _ => true
  | _ => false

end GlobalCommitBarrier

/-! ## The system -/

/-- The locks, and the module and instance state of every process: `fields` by process and instance,
`owners` (`_EXCLUSIVE_OWNERS` at the one lock path) by process. -/
structure BarrierState where
  main : Lock (Nat × Nat)
  gate : Lock (Nat × Nat)
  fields : Table (Nat × Nat) BarrierFields
  owners : Table Nat (Nat × Nat)

/-- How an operation goes where the environment decides. -/
inductive BarrierChoice
  | ok
  /-- The operation fails; for a descriptor, with this error. -/
  | fail (e : StateError)

namespace BarrierState

def lock (s : BarrierState) : LockFile → Lock (Nat × Nat)
  | .main => s.main
  | .gate => s.gate

def setLock (s : BarrierState) (l : Lock (Nat × Nat)) : LockFile → BarrierState
  | .main => { s with main := l }
  | .gate => { s with gate := l }

/-- The fields of an instance; a fresh one has depth 0. -/
def fieldsOf (s : BarrierState) (me : Caller) : BarrierFields :=
  (s.fields.lookup (me.process, me.self)).getD ⟨0, none⟩

def setFields (s : BarrierState) (me : Caller) (fields : BarrierFields) : BarrierState :=
  { s with fields := s.fields.insert (me.process, me.self) fields }

/-- One operation of call `i`; `none` while the operation waits. -/
def perform (s : BarrierState) (i : Nat) :
    (o : BarrierOp) → BarrierChoice → Option (barrierSignature.Resp o × BarrierState)
  | .openLock _ _, .ok => some (.ok (), s)
  | .openLock _ _, .fail e => some (.error e, s)
  | .flock level file mode blocking, .ok =>
      match (s.lock file).acquire (i, level) mode with
      | some l => some (.granted, s.setLock l file)
      | none => if blocking then none else some (.busy, s)
  | .flock .., .fail _ => some (.errored, s)
  | .unlock level file, _ | .close level file, _ =>
      some ((), s.setLock ((s.lock file).release (i, level)) file)
  | .fields me, _ => some (s.fieldsOf me, s)
  | .deepen me, _ =>
      some ((), s.setFields me { s.fieldsOf me with depth := (s.fieldsOf me).depth + 1 })
  | .shallow me, _ =>
      some ((), s.setFields me { s.fieldsOf me with depth := (s.fieldsOf me).depth - 1 })
  | .owner process, _ => some (s.owners.lookup process, s)
  | .register me, _ => some ((), { s.setFields me ⟨1, some me.thread⟩ with
      owners := s.owners.insert me.process (me.self, me.thread) })
  | .unregister me, _ => some ((), { s.setFields me ⟨0, none⟩ with
      owners :=
        if (s.owners.lookup me.process).any fun o => o.1 = me.self then s.owners.erase me.process
        else s.owners })
  | .enter _, _ | .leave, _ => some ((), s)

end BarrierState

/-- A call in progress. -/
structure BarrierCall where
  caller : Caller
  request : GlobalCommitBarrier.Request
  prog : BarrierProg Unit
  phase : Option HoldPhase

structure BarrierWorld where
  state : BarrierState
  calls : Table Nat BarrierCall
  next : Nat

inductive BarrierMove
  /-- A thread calls a context manager. -/
  | start (me : Caller) (request : GlobalCommitBarrier.Request)
  /-- A call performs its next operation. -/
  | run (i : Nat) (c : BarrierChoice)
  /-- A conversion releases the lock it is converting. -/
  | convert (i : Nat)
  /-- A call returned. -/
  | finish (i : Nat)
  /-- A process dies. -/
  | kill (process : Nat)

/-- The phase after an operation. -/
def BarrierOp.phase (old : Option HoldPhase) : BarrierOp → Option HoldPhase
  | .enter phase => some phase
  | .leave => none
  | _ => old

namespace BarrierWorld

def init : BarrierWorld := ⟨⟨.free, .free, ∅, ∅⟩, ∅, 0⟩

/-- The thread is not in a call of `exclusive()`; what such a call calls is its `Body`. -/
def mayStart (w : BarrierWorld) (me : Caller) (request : GlobalCommitBarrier.Request) : Bool :=
  !request.isExclusive || w.calls.entries.all fun e =>
    !e.2.request.isExclusive || e.2.caller.process ≠ me.process || e.2.caller.thread ≠ me.thread

/-- The first half of a conversion. -/
def convert (w : BarrierWorld) (i : Nat) (call : BarrierCall) : Option BarrierWorld :=
  match call.prog with
  | .op (.flock level file _ _) _ =>
      some { w with state :=
        w.state.setLock ((w.state.lock file).release (i, level)) file }
  | _ => none

def runCall (w : BarrierWorld) (i : Nat) (call : BarrierCall) (c : BarrierChoice) :
    Option BarrierWorld :=
  match call.prog with
  | .ret _ => none
  | .op o k => (w.state.perform i o c).map fun rs =>
      { w with
        state := rs.2
        calls := w.calls.insert i { call with prog := k rs.1, phase := o.phase call.phase } }

/-- The calls of a process that dies. -/
def ofProcess (w : BarrierWorld) (process : Nat) (i : Nat) : Bool :=
  (w.calls.lookup i).any fun call => call.caller.process = process

def kill (w : BarrierWorld) (process : Nat) : BarrierWorld where
  state :=
    { main := w.state.main.releaseAll fun d => w.ofProcess process d.1
      gate := w.state.gate.releaseAll fun d => w.ofProcess process d.1
      fields := ⟨w.state.fields.entries.filter fun e => e.1.1 ≠ process,
        w.state.fields.nodupKeys.sublist List.filter_sublist⟩
      owners := w.state.owners.erase process }
  calls := ⟨w.calls.entries.filter fun e => e.2.caller.process ≠ process,
    w.calls.nodupKeys.sublist List.filter_sublist⟩
  next := w.next

def step (w : BarrierWorld) : BarrierMove → Option BarrierWorld
  | .start me request =>
      if w.mayStart me request then
        some { w with
          calls := w.calls.insert w.next ⟨me, request, request.prog me, none⟩
          next := w.next + 1 }
      else none
  | .run i c => (w.calls.lookup i).bind fun call => w.runCall i call c
  | .convert i => (w.calls.lookup i).bind fun call => w.convert i call
  | .finish i => (w.calls.lookup i).bind fun call =>
      if call.prog.value?.isSome then some { w with calls := w.calls.erase i } else none
  | .kill process => some (w.kill process)

end BarrierWorld

def barrier : System BarrierWorld BarrierMove := .ofFun .init BarrierWorld.step

end Milhouse
