import Milhouse.Spool.Operations
import Milhouse.Spool.Replay
import Milhouse.Spool.Retention

/-!
# Milhouse — the read-only audit, and what a reconciliation pass counts as healthy

`verifySpool` is `verify_spool`: it walks the ledger, reads the file each row names and compares the
two. `healthyIds` lists the batches at which a pass over the same tree adds one to its count of
healthy segments: the pass walks the files, so a batch may come up at its one file or among several.
A tree at rest has directory modes besides its store; the audit takes them as they are, the pass
hardens a private directory whose mode is too strict before it looks into it.

`Told` says what a program that only reads returns from a tree at rest; its rules are at the end.
-/

namespace Milhouse.Verify

open Interaction Interaction.Prog

/-! ## The tree at rest -/

/-- What `stat` and `open` say of `pending` or of one of its day directories. -/
inductive DirShape where
  /-- Owned, of mode 0700 exactly, ACL-free. -/
  | «private»
  /-- Owned, of a mode that leaves out bits of 0700; the reader gets through it or does not. -/
  | stricter (opens : Bool)
  /-- A directory outside the envelope: a foreign owner, a looser or special mode, an ACL. -/
  | loose
  deriving DecidableEq, Repr

/-- `_open_or_repair_private_dir_at`, where it does not refuse. -/
def DirShape.repaired : DirShape → DirShape
  | .stricter _ => .private
  | shape => shape

/-- Whether the reader gets through the directory. -/
def DirShape.opens : DirShape → Bool
  | .stricter opens => opens
  | _ => true

/-- The spool between two passes: what is stored, and the shapes of `pending` and of its day
directories. -/
structure RestingSpool where
  store : SpoolState
  pending : DirShape
  days : Day → DirShape

namespace RestingSpool

/-- The same spool with its directories hardened. -/
def repaired (t : RestingSpool) : RestingSpool :=
  { t with pending := t.pending.repaired, days := fun day => (t.days day).repaired }

/-- The inventory refuses no directory of the tree. -/
structure Listable (t : RestingSpool) : Prop where
  pending : t.pending ≠ .loose
  days : ∀ day, (t.store.dirs.lookup (.pending, day)).isSome → t.days day ≠ .loose

/-- The rows are valid, and every file has an inode number that was handed out. -/
structure Valid (t : RestingSpool) : Prop where
  rows : t.store.ledger.Sound
  inodes : ∀ p f, t.store.file p = some f → f.inode < t.store.nextInode

/-- The walk of `open_regular_file_no_follow` to a day directory: only the parent of the leaf has to
be private. -/
def openDay (t : RestingSpool) (day : Day) : Except String Unit :=
  if !t.pending.opens then .error "MH_SPOOL_READ"
  else if (t.store.dirs.lookup (.pending, day)).isNone then .error "MH_SPOOL_NOT_FOUND"
  else match t.days day with
    | .private => .ok ()
    | .stricter false => .error "MH_SPOOL_READ"
    | .stricter true | .loose => .error "MH_SPOOL_UNSAFE"

end RestingSpool

/-! ## The audit -/

/-- The verdict on one committed segment: the code is absent where it is intact. -/
structure SegmentVerification where
  batchId : String
  intact : Bool
  code : Option String
  delivered : Bool
  deriving DecidableEq, Repr

structure VerifyReport where
  segments : List SegmentVerification
  deriving DecidableEq, Repr

namespace VerifyReport

def intact (r : VerifyReport) : Bool := r.segments.all (·.intact)

def fullyDelivered (r : VerifyReport) : Bool := r.segments.all (·.delivered)

def compromised (r : VerifyReport) : List SegmentVerification := r.segments.filter (!·.intact)

end VerifyReport

section Audit

variable (fmt : SegmentFormat)

/-- `read_trusted_segment` of a leaf of `pending`, where no call fails. -/
def readTrusted (t : RestingSpool) (day : Day) (batchId : String) :
    Except String (ParsedSegment fmt.Frame) :=
  match t.openDay day with
  | .error code => .error code
  | .ok () => Retention.trustedSegment fmt t.store (segmentPath day batchId)

/-- `_verify_segment`. -/
def verifySegment (t : RestingSpool) (record : SegmentRecord) : Option String :=
  match readTrusted fmt t record.day record.batchId with
  | .error code => some code
  | .ok parsed =>
      if agrees parsed record.day record.batchId record then none else some "MH_SPOOL_VERIFY"

/-- `verify_spool`. -/
def verifySpool (t : RestingSpool) : VerifyReport :=
  ⟨t.store.ledger.records.map fun record =>
    let code := verifySegment fmt t record
    ⟨record.batchId, code.isNone, code, Retention.isDelivered record⟩⟩

/-- The segments a report calls intact. -/
def intactIds (t : RestingSpool) : List String :=
  ((verifySpool fmt t).segments.filter (·.intact)).map (·.batchId)

end Audit

/-! ## What a pass counts -/

section Healthy

variable (fmt : SegmentFormat) (s : SpoolState)

/-- The candidate a record names. -/
def named (record : SegmentRecord) : Candidate := ⟨record.day, record.batchId⟩

/-- The trusted read of a candidate agrees with a record. -/
def accepts (c : Candidate) (record : SegmentRecord) : Bool :=
  match Retention.trustedSegment fmt s c.path with
  | .ok parsed => agrees parsed c.day c.batchId record
  | .error _ => false

/-- What the inventory makes of one leaf. -/
def candidateOf (leaf : Day × String) : Option Candidate :=
  if stagePrefix.toList <+: leaf.2.toList then none
  else match batchIdOfName leaf.2 with
    | .ok batchId => some ⟨leaf.1, batchId⟩
    | .error _ => none

/-- The candidates of the inventory. -/
def candidates : List Candidate := s.leaves.filterMap candidateOf

/-- The record a candidate or a conflict is routed by. -/
def recordFor (batchId : String) : Option SegmentRecord := recordOf s.ledger.records batchId

/-- No other file carries the candidate's batch id. -/
def single (c : Candidate) : Bool := (copiesOf (candidates s) c.batchId).length ≤ 1

/-- `_verify_committed` counts the candidate. -/
def counts (c : Candidate) : Bool :=
  single s c && (recordFor s c.batchId).any fun record => accepts fmt s c record

/-- The copy of a conflicted batch that its record designates. -/
def keeper (batchId : String) : Option Candidate :=
  (recordFor s batchId).bind fun record =>
    ((copiesOf (candidates s) batchId).find? (·.day = record.day)).filter fun c =>
      accepts fmt s c record

/-- The batches at which a pass counts a healthy segment, in the order in which it does. -/
def healthyIds : List String :=
  ((candidates s).filter (counts fmt s)).map (·.batchId) ++
    (conflicted (candidates s)).filter fun batchId => (keeper fmt s batchId).isSome

end Healthy

/-! ## A pass over a tree at rest -/

/-- An operation of the trusted reader. -/
def readsTrusted : SpoolOp → Bool
  | .readTrusted .. => true
  | _ => false

/-- The trusted reader of a tree at rest reads what is there; any other call may fail, and any
directory may be found changed. -/
def restHandler : Handler spoolSignature SpoolState Choice where
  perform s o c := if readsTrusted o ∧ c ≠ .ok then none else s.perform o c

/-- A pass over a tree at rest, with the calls of `tape` failing, that ends with a report. -/
structure Reconciles (fmt : SegmentFormat) (t : RestingSpool) (report : ReconciliationReport)
    (t' : RestingSpool) : Prop where
  listable : t.Listable
  pending : t'.pending = t.pending.repaired
  days : ∀ day, t'.days day = (t.days day).repaired
  run : ∃ tape, (reconcilePass fmt).play restHandler t.store tape =
    some (.ret (.ok report), t'.store)

/-! ## What a program is told -/

section Told

variable {s s' : SpoolState} {α β : Type} {φ ψ : α → Prop}

theorem rest_perform {o : SpoolOp} {c : Choice} {r : o.Resp}
    (h : restHandler.perform s o c = some (r, s')) : s.perform o c = some (r, s') := by
  have h : (if readsTrusted o ∧ c ≠ .ok then none else s.perform o c) = some (r, s') := h
  split at h
  · cases h
  · exact h

/-- Reading a tree at rest changes nothing. -/
theorem rest_observes {o : SpoolOp} {c : Choice} {r : o.Resp} (ho : o.observes)
    (h : restHandler.perform s o c = some (r, s')) : s' = s := by
  have hchange := SpoolState.perform_change (rest_perform h)
  cases hchange with
  | same => rfl
  | unreadable p inventoried =>
      have h : (if readsTrusted (.readTrusted p inventoried) ∧ c ≠ .ok then none
        else s.perform (.readTrusted p inventoried) c) =
          some (r, s.remember (.unreadable p inventoried)) := h
      split at h
      · cases h
      · rename_i hok
        have hok : c = .ok := by simpa [readsTrusted] using hok
        subst hok
        have hs : s = s.remember (.unreadable p inventoried) := (Prod.mk.inj (Option.some.inj h)).2
        exact hs.symm
  | _ => exact ho.elim

theorem rest_readTrusted {p : Path} {inventoried : Bool} {c : Choice} {r : Except ReadFault File}
    (h : restHandler.perform s (.readTrusted p inventoried) c = some (r, s')) :
    r = s.opened p := by
  have h : (if readsTrusted (.readTrusted p inventoried) ∧ c ≠ .ok then none
    else s.perform (.readTrusted p inventoried) c) = some (r, s') := h
  split at h
  · cases h
  · rename_i hok
    have hok : c = .ok := by simpa [readsTrusted] using hok
    subst hok
    exact (Prod.mk.inj (Option.some.inj h)).1.symm

/-- Whatever fails, the program returns from a tree at rest only where `Q` holds. -/
def AtRest (p : SpoolProg α) (Q : α → SpoolState → Prop) (s : SpoolState) : Prop :=
  p.Safe restHandler (fun t t' => t' = t) (fun _ _ => True) Q s

/-- A program that only reads a tree at rest returns a value of `φ`. -/
def Told (s : SpoolState) (p : SpoolProg α) (φ : α → Prop) : Prop :=
  AtRest p (fun a t => t = s ∧ φ a) s

theorem told_ret {a : α} (h : φ a) : Told s (.ret a) φ := ⟨rfl, h⟩

theorem told_mono {p : SpoolProg α} (h : Told s p ψ) (hψ : ∀ a, ψ a → φ a) : Told s p φ :=
  Safe.mono h fun a _ ha => ⟨ha.1, hψ a ha.2⟩

/-- The rule of one operation. -/
theorem atRest_op {o : SpoolOp} {f : o.Resp → SpoolProg α} {Q : α → SpoolState → Prop}
    (h : ∀ c r s', restHandler.perform s o c = some (r, s') → AtRest (f r) Q s') :
    AtRest (call (Γ := spoolSignature) o >>= f) Q s := by
  rintro _ rfl c r s' hstep
  exact ⟨trivial, h c r s' hstep⟩

/-- The rule of one operation that only looks. -/
theorem told_call {o : SpoolOp} {k : o.Resp → SpoolProg α} (ho : o.observes)
    (h : ∀ c r, restHandler.perform s o c = some (r, s) → Told s (k r) φ) :
    Told s (call (Γ := spoolSignature) o >>= k) φ := by
  rintro _ rfl c r s' hstep
  obtain rfl := rest_observes ho hstep
  exact ⟨trivial, h c r hstep⟩

/-- The rule of sequential composition. -/
theorem told_seq {p : SpoolProg α} {f : α → SpoolProg β} {χ : β → Prop} (h : Told s p ψ)
    (hf : ∀ a, ψ a → Told s (f a) χ) : Told s (p >>= f) χ := by
  refine Safe.seq h fun a t ha => ?_
  rw [ha.1]
  exact hf a ha.2

theorem told_observes {p : SpoolProg α} (hp : p.Only SpoolOp.observes) :
    Told s p fun _ => True := by
  refine (Safe.of_only hp (I := fun t => t = s) ?_ ?_ rfl).mono fun _ _ h => ⟨h, trivial⟩
  · exact fun t t' ht hR => hR.trans ht
  · exact fun t o c r t' ho ht hstep => ⟨trivial, (rest_observes ho hstep).trans ht⟩

/-- The rule of iteration, with the elements done so far. -/
theorem told_foldUntil {xs : List α} {acc : β} {body : β → α → SpoolProg (Bool × β)}
    {I : List α → β → Prop}
    (hbody : ∀ before x after, xs = before ++ x :: after → ∀ b, I before b →
      Told s (body b x) fun r => r.1 = true ∧ I (before ++ [x]) r.2)
    (hs : I [] acc) : Told s (foldUntil xs acc body) (I xs) := by
  refine Safe.foldUntil_done (I := fun before b t => t = s ∧ I before b) ?_ ⟨rfl, hs⟩
  intro before x after hxs b t ht
  rw [ht.1]
  exact (hbody before x after hxs b ht.2).mono fun r t hr => ⟨hr.2.1, hr.1, hr.2.2⟩

end Told

end Milhouse.Verify
