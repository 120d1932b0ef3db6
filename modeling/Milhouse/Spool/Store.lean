import Milhouse.Lib.Disk
import Milhouse.Lib.Interaction
import Milhouse.Spool.Ledger
import Milhouse.Spool.Names

/-!
# Milhouse — the durable store under the spool: files, ledger tables and their operations

`SpoolState` is what survives a process: the day directories of `pending` and `quarantine`, the
ledger tables, and the list of the `Event`s of the run. `SpoolOp` is the interface the spooling
programs are written against, one operation for each system call or transaction they make, and
`spoolHandler` says what each does under a `Choice` of the environment: succeed, fail, take effect
and still report a failure, or be cut off in the middle of a write.
-/

namespace Milhouse

open Disk Interaction

/-! ## Files -/

/-- The two trees of the spool. -/
inductive Tree where
  | pending
  | quarantine
  deriving DecidableEq, Repr

/-- A leaf `<tree>/<day>/<name>`. -/
structure Path where
  tree : Tree
  day : Day
  name : String
  deriving DecidableEq, Repr

/-- What `fstat` and the ACL probe say of a leaf. -/
inductive Shape where
  /-- An owned, exact-0600, single-link, ACL-free regular file. -/
  | «private»
  /-- An owned, single-link regular file of a stricter mode than 0600. -/
  | restricted
  /-- A regular file outside the envelope: a foreign owner, a looser mode, a second link, an ACL. -/
  | loose
  /-- Not a regular file: a symlink, a directory, a FIFO, a device. -/
  | special
  deriving DecidableEq, Repr

/-- A file as one name of it shows it; `shape` is its shape apart from its link count. -/
structure File where
  content : Bytes
  inode : Nat
  shape : Shape
  deriving DecidableEq, Repr

abbrev DayDir := Dir String File

def segmentPath (day : Day) (batchId : String) : Path := ⟨.pending, day, segmentName batchId⟩

/-! ## The state -/

/-- What a delivered frame shows of itself. -/
structure HandedFrame where
  batchId : String
  line : Bytes
  expiresAt : Stamp
  deriving DecidableEq, Repr

/-- What an `ExporterAttempt` reports. -/
inductive AttemptOutcome where
  | delivered
  | failed
  | alreadyDelivered
  | noExporter
  | expired
  | segmentGone
  deriving DecidableEq, Repr

/-- What is remembered of a run; no program reads it. -/
inductive Event where
  /-- A publication returned: the bytes are at `p`, behind a synced directory. -/
  | published (p : Path) (content : Bytes)
  /-- `commit_segment` returned a record for these bytes. -/
  | acknowledged (r : SegmentRecord) (content : Bytes)
  /-- A trusted read of `p` failed for a reason other than the bytes read. -/
  | unreadable (p : Path) (inventoried : Bool)
  /-- A prune reached the ledger. -/
  | pruned (r : SegmentRecord) (now : Stamp)
  /-- An exporter was handed frames, and returned normally or raised. -/
  | handed (r : SegmentRecord) (exporterId : String) (frames : List HandedFrame) (now : Stamp)
      (returned : Bool)
  /-- A delivery attempt for a row of `r` was reported. -/
  | attempted (r : SegmentRecord) (exporterId : String) (now : Stamp) (outcome : AttemptOutcome)
  deriving DecidableEq, Repr

structure SpoolState where
  dirs : Table (Tree × Day) DayDir
  ledger : Ledger
  nextInode : Nat
  history : List Event

/-- An empty spool. -/
def SpoolState.empty : SpoolState := ⟨∅, .empty, 0, []⟩

namespace SpoolState

/-- A day directory; one that does not exist has no entries. -/
def dir (s : SpoolState) (tree : Tree) (day : Day) : DayDir :=
  (s.dirs.lookup (tree, day)).getD .empty

def setDir (s : SpoolState) (tree : Tree) (day : Day) (d : DayDir) : SpoolState :=
  { s with dirs := s.dirs.insert (tree, day) d }

/-- The file at a path, if any. -/
def file (s : SpoolState) (p : Path) : Option File := (s.dir p.tree p.day).current.lookup p.name

/-- The file at a path as `fstat` shows it: a second name of the same inode makes it loose. -/
def stat (s : SpoolState) (p : Path) : Option File :=
  (s.file p).map fun f =>
    if (s.dir p.tree p.day).current.entries.any fun e => e.1 ≠ p.name && e.2.inode = f.inode then
      { f with shape := if f.shape = .special then .special else .loose }
    else f

/-- The leaves of `pending`. -/
def leaves (s : SpoolState) : List (Day × String) :=
  s.dirs.entries.flatMap fun e =>
    if e.1.1 = .pending then e.2.current.entries.map fun f => (e.1.2, f.1) else []

/-- Put a file, without syncing its directory. -/
def put (s : SpoolState) (p : Path) (f : File) : SpoolState :=
  s.setDir p.tree p.day ((s.dir p.tree p.day).update ((s.dir p.tree p.day).current.insert p.name f))

/-- Remove a name, without syncing its directory. -/
def remove (s : SpoolState) (p : Path) : SpoolState :=
  s.setDir p.tree p.day ((s.dir p.tree p.day).update ((s.dir p.tree p.day).current.erase p.name))

/-- Rename inside one directory: one atomic change. -/
def move (s : SpoolState) (tree : Tree) (day : Day) (src dst : String) (f : File) : SpoolState :=
  s.setDir tree day ((s.dir tree day).update (((s.dir tree day).current.erase src).insert dst f))

/-- Sync one directory. -/
def syncDir (s : SpoolState) (tree : Tree) (day : Day) : SpoolState :=
  s.setDir tree day (s.dir tree day).sync

end SpoolState

/-! ## The operations -/

inductive ReadFault where
  | absent
  /-- The leaf or its parent is not the inventoried one. -/
  | changed
  | unreadable
  deriving DecidableEq, Repr

inductive CreateOutcome where
  | created
  | exists
  | failed
  deriving DecidableEq, Repr

inductive RenameOutcome where
  | done
  | exists
  | failed
  | uncertain
  deriving DecidableEq, Repr

/-- One system call or one transaction. -/
inductive SpoolOp where
  /-- `SELECT … FROM _segments` with the delivery rows. -/
  | readLedger
  /-- `SELECT … FROM _retirements`. -/
  | readRetirements
  /-- The bounded inventory of `pending`; a failure is an incomplete inventory. -/
  | listPending
  /-- Open no-follow, `fstat` and read one leaf. -/
  | readFile (p : Path)
  /-- The same for the trusted reader; a reconciliation pass, and nothing else, gives it the identity
  of the directory that it inventoried (`expected_parent`). -/
  | readTrusted (p : Path) (inventoried : Bool)
  /-- `secrets.token_hex(16)`. -/
  | token
  /-- Create a leaf that must not exist, write it and fsync it. -/
  | createExcl (p : Path) (content : Bytes)
  /-- Truncate and fsync an open leaf. -/
  | truncate (p : Path)
  /-- Rename inside one directory, replacing an existing destination or not. -/
  | rename (tree : Tree) (day : Day) (src dst : String) (replace : Bool)
  /-- Hard-link inside one directory to a name that must not exist. -/
  | link (tree : Tree) (day : Day) (src dst : String)
  | unlink (p : Path)
  | syncDir (tree : Tree) (day : Day)
  /-- Open a day directory, creating it where absent; `sync` also fsyncs the child. -/
  | ensureDir (tree : Tree) (day : Day) (sync : Bool)
  /-- Re-walk the live chain to a day directory and compare identities. -/
  | binding (tree : Tree) (day : Day)
  | insertSegment (r : SegmentRecord)
  | pruneSegment (r : SegmentRecord) (now : Stamp)
  | deleteTombstone (batchId : String)
  /-- `read_segment_record`. -/
  | readRecord (batchId : String)
  /-- `exporter.deliver(record, frames)`. -/
  | export (r : SegmentRecord) (exporterId : String) (frames : List HandedFrame) (now : Stamp)
  | advanceStatus (batchId exporterId : String) (status : DeliveryStatus)
  /-- Convert the exclusive hold of the commit barrier to the shared side. -/
  | share
  /-- Remember an event. -/
  | note (e : Event)

/-- The responses. -/
def SpoolOp.Resp : SpoolOp → Type
  | .readLedger => Option (List SegmentRecord)
  | .readRetirements => Option (List (String × Retirement))
  | .listPending => Option (List (Day × String))
  | .readFile _ | .readTrusted .. => Except ReadFault File
  | .token => Option String
  | .createExcl _ _ => CreateOutcome
  | .rename .. => RenameOutcome
  | .link .. => RenameOutcome
  | .truncate _ | .unlink _ | .syncDir .. | .ensureDir .. | .binding .. | .share => Bool
  | .insertSegment _ | .pruneSegment .. | .deleteTombstone _ | .export .. => Bool
  | .readRecord _ => Option (Option SegmentRecord)
  | .advanceStatus .. => Option CasResult
  | .note _ => Unit

def spoolSignature : Signature := ⟨SpoolOp, SpoolOp.Resp⟩

abbrev SpoolProg := Prog spoolSignature

/-- What the environment decides about one operation. -/
inductive Choice where
  /-- It succeeds. -/
  | ok
  /-- It fails and has no effect. -/
  | fail
  /-- It takes effect and reports a failure. -/
  | lost
  /-- It reports an unknown outcome and has no effect. -/
  | blur
  /-- A write stops after `n` bytes and reports a failure. -/
  | cut (n : Nat)
  /-- The random token. -/
  | token (text : String)
  deriving DecidableEq, Repr

namespace SpoolState

/-- Create a new private file. -/
def create (s : SpoolState) (p : Path) (content : Bytes) : SpoolState :=
  { s.put p ⟨content, s.nextInode, .private⟩ with nextInode := s.nextInode + 1 }

/-- Remember an event. -/
def remember (s : SpoolState) (e : Event) : SpoolState := { s with history := s.history ++ [e] }

/-- What opening and reading a leaf gives. -/
def opened (s : SpoolState) (p : Path) : Except ReadFault File :=
  match s.stat p with
  | some f => .ok f
  | none => .error .absent

/-- Create a day directory where absent. -/
def ensure (s : SpoolState) (tree : Tree) (day : Day) : SpoolState :=
  if (s.dirs.lookup (tree, day)).isSome then s else s.setDir tree day .empty

def setLedger (s : SpoolState) (t : Ledger) : SpoolState := { s with ledger := t }

def dropTombstone (s : SpoolState) (batchId : String) : SpoolState :=
  s.setLedger { s.ledger with retirements := s.ledger.retirements.erase batchId }

end SpoolState

/-- What an operation does. -/
def SpoolState.perform (s : SpoolState) : (o : SpoolOp) → Choice → Option (o.Resp × SpoolState)
  | .readLedger, .ok => some (some s.ledger.records, s)
  | .readLedger, .fail => some (none, s)
  | .readRetirements, .ok =>
      some (some (s.ledger.retirements.entries.map fun e => (e.1, e.2)), s)
  | .readRetirements, .fail => some (none, s)
  | .listPending, .ok => some (some s.leaves, s)
  | .listPending, .fail => some (none, s)
  | .readFile p, .ok => some (s.opened p, s)
  | .readFile _, .fail => some (.error .unreadable, s)
  | .readTrusted p _, .ok => some (s.opened p, s)
  | .readTrusted p inventoried, .blur =>
      some (.error .changed, s.remember (.unreadable p inventoried))
  | .readTrusted p inventoried, .fail =>
      some (.error .unreadable, s.remember (.unreadable p inventoried))
  | .token, .token text => some (some text, s)
  | .token, .fail => some (none, s)
  | .createExcl p content, .ok =>
      if (s.dirs.lookup (p.tree, p.day)).isNone then some (.failed, s)
      else if (s.file p).isSome then some (.exists, s)
      else some (.created, s.create p content)
  | .createExcl _ _, .fail => some (.failed, s)
  | .createExcl p content, .cut n =>
      if (s.dirs.lookup (p.tree, p.day)).isNone ∨ (s.file p).isSome then none
      else some (.failed, s.create p (content.take n))
  | .truncate p, .ok =>
      match s.file p with
      | some f => some (true, s.put p { f with content := [] })
      | none => some (false, s)
  | .truncate _, .fail => some (false, s)
  | .rename tree day src dst replace, .ok =>
      match s.file ⟨tree, day, src⟩ with
      | none => some (.failed, s)
      | some f =>
          if !replace ∧ (s.file ⟨tree, day, dst⟩).isSome then some (.exists, s)
          else some (.done, s.move tree day src dst f)
  | .rename .., .fail => some (.failed, s)
  | .rename .., .blur => some (.uncertain, s)
  | .rename tree day src dst replace, .lost =>
      match s.file ⟨tree, day, src⟩ with
      | none => none
      | some f =>
          if !replace ∧ (s.file ⟨tree, day, dst⟩).isSome then none
          else some (.uncertain, s.move tree day src dst f)
  | .link tree day src dst, .ok =>
      match s.file ⟨tree, day, src⟩ with
      | none => some (.failed, s)
      | some f =>
          if (s.file ⟨tree, day, dst⟩).isSome then some (.exists, s)
          else some (.done, s.put ⟨tree, day, dst⟩ f)
  | .link .., .fail => some (.failed, s)
  | .link tree day src dst, .lost =>
      match s.file ⟨tree, day, src⟩ with
      | none => none
      | some f =>
          if (s.file ⟨tree, day, dst⟩).isSome then none
          else some (.failed, s.put ⟨tree, day, dst⟩ f)
  | .unlink p, .ok => if (s.file p).isSome then some (true, s.remove p) else some (false, s)
  | .unlink _, .fail => some (false, s)
  | .unlink p, .lost => if (s.file p).isSome then some (false, s.remove p) else none
  | .syncDir tree day, .ok =>
      if (s.dirs.lookup (tree, day)).isSome then some (true, s.syncDir tree day)
      else some (false, s)
  | .syncDir .., .fail => some (false, s)
  | .ensureDir tree day sync, .ok =>
      some (true, if sync then (s.ensure tree day).syncDir tree day else s.ensure tree day)
  | .ensureDir .., .fail => some (false, s)
  | .ensureDir tree day _, .lost => some (false, s.ensure tree day)
  | .binding .., .ok => some (true, s)
  | .binding .., .fail => some (false, s)
  | .insertSegment r, .ok =>
      match s.ledger.insertSegment r with
      | some t => some (true, s.setLedger t)
      | none => some (false, s)
  | .insertSegment _, .fail => some (false, s)
  | .pruneSegment r now, .ok =>
      match s.ledger.pruneSegment r now with
      | some t => some (true, (s.setLedger t).remember (.pruned r now))
      | none => some (false, s)
  | .pruneSegment .., .fail => some (false, s)
  | .deleteTombstone b, .ok => some (true, s.dropTombstone b)
  | .deleteTombstone _, .fail => some (false, s)
  | .readRecord b, .ok => some (some ((s.ledger.segments.lookup b).map (s.ledger.record b)), s)
  | .readRecord _, .fail => some (none, s)
  | .export r e frames now, .ok => some (true, s.remember (.handed r e frames now true))
  | .export r e frames now, .fail => some (false, s.remember (.handed r e frames now false))
  | .advanceStatus b e status, .ok =>
      some (some (s.ledger.advanceStatus b e status).1,
        s.setLedger (s.ledger.advanceStatus b e status).2)
  | .advanceStatus .., .fail => some (none, s)
  | .share, .ok => some (true, s)
  | .share, .fail => some (false, s)
  | .note e, .ok => some ((), s.remember e)
  | _, _ => none

def spoolHandler : Handler spoolSignature SpoolState Choice := ⟨SpoolState.perform⟩

/-- A power loss: each directory keeps one of its listings, and everything else survives. -/
def SpoolState.crash (s : SpoolState) (kept : Tree × Day → Nat) : SpoolState :=
  { s with dirs := Table.mapValues (fun k d => d.settle (kept k)) s.dirs }

end Milhouse
