import Milhouse.Lib.Refinement
import Milhouse.Logs.Frames

/-!
# Milhouse — the logs directory and its file operations

The directory names the current segment, the staging file and the rotations; a name is an entry for
an inode, and an inode can have two names while a rotation is being finished. Every operation of the
log runs under the exclusive `structured-log.lock`, as one step; inside it each system call is an
operation of its own. The environment lets it succeed, lets it fail without an effect, or lets a
write persist a prefix of its bytes.

The directory also keeps its history, which no operation reads: what was published under the current
name, the event lines written whole, the segments closed, and the rotations deleted.
-/

namespace Milhouse

open Interaction

inductive LogName
  | current
  | staging
  | rotated (sequence : Nat)
  deriving DecidableEq, Repr

/-- The history of a directory. -/
structure LogHistory where
  /-- The bytes of every file renamed to the current name, oldest first. -/
  published : List LogText
  /-- Every event line written whole, oldest first. -/
  lines : List LogText
  /-- Every segment that lost the current name to a rotated one: its inode and its bytes. -/
  closed : List (Nat × LogText)
  /-- The inodes whose rotated name was deleted. -/
  removed : List Nat

structure LogDir where
  /-- Inode numbers below this one have been handed out. -/
  inodes : Nat
  bytes : Nat → LogText
  current : Option Nat
  staging : Option Nat
  /-- The entries `structured-log.<sequence>.jsonl`. -/
  rotated : List (Nat × Nat)
  history : LogHistory

namespace LogDir

/-- A directory no log was ever kept in. -/
def empty : LogDir := ⟨0, fun _ => [], none, none, [], ⟨[], [], [], []⟩⟩

def lookup (d : LogDir) : LogName → Option Nat
  | .current => d.current
  | .staging => d.staging
  | .rotated sequence => d.rotated.lookup sequence

/-- `st_nlink`. -/
def links (d : LogDir) (inode : Nat) : Nat :=
  (if d.current = some inode then 1 else 0) + (if d.staging = some inode then 1 else 0) +
    d.rotated.countP fun e => e.2 = inode

def setBytes (d : LogDir) (inode : Nat) (text : LogText) : LogDir :=
  { d with bytes := fun i => if i = inode then text else d.bytes i }

/-- The staging file is created, empty. -/
def create (d : LogDir) : LogDir :=
  { d.setBytes d.inodes [] with inodes := d.inodes + 1, staging := some d.inodes }

/-- Bytes are appended to a file. -/
def append (d : LogDir) (inode : Nat) (data : LogText) : LogDir :=
  d.setBytes inode (d.bytes inode ++ data)

/-- A whole event line is appended. -/
def appendEvent (d : LogDir) (inode : Nat) (line : LogText) : LogDir :=
  { d.append inode line with history := { d.history with lines := d.history.lines ++ [line] } }

/-- The staging file takes the current name. -/
def publish (d : LogDir) (inode : Nat) : LogDir :=
  { d with
    current := some inode
    staging := none
    history := { d.history with published := d.history.published ++ [d.bytes inode] } }

/-- The current file takes a rotated name as well. -/
def link (d : LogDir) (inode sequence : Nat) : LogDir :=
  { d with rotated := d.rotated ++ [(sequence, inode)] }

/-- The current name is removed. -/
def unlinkCurrent (d : LogDir) (inode : Nat) : LogDir :=
  { d with
    current := none
    history := { d.history with closed := d.history.closed ++ [(inode, d.bytes inode)] } }

def unlinkStaging (d : LogDir) : LogDir := { d with staging := none }

/-- A rotated name is removed. -/
def unlinkRotated (d : LogDir) (inode sequence : Nat) : LogDir :=
  { d with
    rotated := d.rotated.filter fun e => e.1 ≠ sequence
    history := { d.history with removed := inode :: d.history.removed } }

end LogDir

/-! ## The operations -/

/-- What is being written. -/
inductive LineKind | header | event | trailer
  deriving DecidableEq, Repr

inductive LogOp
  /-- `_require_live_directory`. -/
  | liveDirectory
  /-- `os.scandir`: the sequences of the rotated names. -/
  | scan
  /-- `os.open` of an existing name. -/
  | openFile (name : LogName)
  /-- `os.stat` of a name, without following it: the identity it has. -/
  | statName (name : LogName)
  /-- `os.fstat`: link count and size. The owner, the mode and the ACL are those it was made with. -/
  | fstat (inode : Nat)
  /-- `os.read` to the end. -/
  | read (inode : Nat)
  /-- `os.open` of the staging name with `O_CREAT | O_EXCL`. -/
  | create
  /-- One `os.write` at the end of a file. -/
  | write (inode : Nat) (kind : LineKind) (data : LogText)
  /-- `os.ftruncate`. -/
  | truncate (inode size : Nat)
  /-- `os.fsync` of a file or of the directory. -/
  | sync
  /-- `os.close` whose failure the caller reports. -/
  | close
  /-- `os.rename` of the staging name to the current name. -/
  | rename
  /-- `os.link` of the current name to a rotated name. -/
  | link (sequence : Nat)
  /-- `os.unlink`. -/
  | unlink (name : LogName)

/-- What opening or examining a name finds. -/
inductive Opened
  | found (inode : Nat)
  | missing
  | failed
  deriving DecidableEq, Repr

inductive Linked | done | occupied | failed
  deriving DecidableEq, Repr

def LogOp.Resp : LogOp → Type
  | .liveDirectory | .truncate .. | .sync | .close | .rename | .unlink .. => Bool
  | .scan => Option (List Nat)
  | .openFile .. | .statName .. => Opened
  | .fstat .. => Option (Nat × Nat)
  | .read .. => Option LogText
  | .create => Option Nat
  | .write .. => Option Nat
  | .link .. => Linked

def logSignature : Signature := ⟨LogOp, LogOp.Resp⟩

/-- The answer of an operation that fails; a failing operation has no effect. -/
def LogOp.failure : (o : LogOp) → o.Resp
  | .liveDirectory | .truncate .. | .sync | .close | .rename | .unlink .. => false
  | .scan | .fstat .. | .read .. | .create | .write .. => none
  | .openFile .. | .statName .. => .failed
  | .link .. => .failed

def openedOf : Option Nat → Opened
  | some inode => .found inode
  | none => .missing

/-- An operation that is let succeed: its answer and its effect. -/
def LogDir.answer (d : LogDir) : (o : LogOp) → o.Resp × LogDir
  | .liveDirectory => (true, d)
  | .scan => (some (d.rotated.map Prod.fst), d)
  | .openFile name => (openedOf (d.lookup name), d)
  | .statName name => (openedOf (d.lookup name), d)
  | .fstat inode => (some (d.links inode, (d.bytes inode).length), d)
  | .read inode => (some (d.bytes inode), d)
  | .create =>
      match d.staging with
      | none => (some d.inodes, d.create)
      | some _ => (none, d)
  | .write inode kind data =>
      (some data.length, if kind = .event then d.appendEvent inode data else d.append inode data)
  | .truncate inode size => (true, d.setBytes inode ((d.bytes inode).take size))
  | .sync => (true, d)
  | .close => (true, d)
  | .rename =>
      match d.staging with
      | some inode => (true, d.publish inode)
      | none => (false, d)
  | .link sequence =>
      match d.current, d.rotated.lookup sequence with
      | none, _ => (.failed, d)
      | some _, some _ => (.occupied, d)
      | some inode, none => (.done, d.link inode sequence)
  | .unlink .current =>
      match d.current with
      | some inode => (true, d.unlinkCurrent inode)
      | none => (false, d)
  | .unlink .staging => (d.staging.isSome, d.unlinkStaging)
  | .unlink (.rotated sequence) =>
      match d.rotated.lookup sequence with
      | some inode => (true, d.unlinkRotated inode sequence)
      | none => (false, d)

/-- The choices of the environment. -/
inductive LogFault
  | ok
  | fail
  /-- A write persists only the first `count` bytes. -/
  | short (count : Nat)
  deriving DecidableEq, Repr

def logHandler : Handler logSignature LogDir LogFault where
  perform
    | d, o, .ok => some (d.answer o)
    | d, o, .fail => some (o.failure, d)
    | d, .write inode _ data, .short count =>
        if count < data.length then some (some count, d.append inode (data.take count)) else none
    | _, _, .short _ => none

/-! ## Programs over the directory -/

/-- What a program raises: a `LoggingError`, or an exception that has no code. -/
inductive LogRaised
  | logging (error : LoggingError)
  | uncoded
  deriving DecidableEq, Repr

/-- A program that may raise. -/
abbrev LogProg (α : Type) := Prog logSignature (Except LogRaised α)

namespace LogProg

variable {α : Type}

/-- Perform one operation. -/
def perform (o : LogOp) (k : o.Resp → LogProg α) : LogProg α := .op o k

def done (value : α) : LogProg α := .ret (.ok value)

/-- `_fail`. -/
def fail (code message : String) : LogProg α := .ret (.error (.logging ⟨code, message⟩))

def raise (error : LoggingError) : LogProg α := .ret (.error (.logging error))

/-- The value of a computation without operations. -/
def lift : Except LoggingError α → LogProg α
  | .ok value => done value
  | .error error => raise error

/-- `except OSError`: an exception without a code becomes a coded failure. -/
def normalize (error : LoggingError) (p : LogProg α) : LogProg α :=
  bind (m := Prog logSignature) p fun
    | .error .uncoded => raise error
    | r => .ret r

/-- `if not ok: _fail(…)`. -/
def check (ok : Bool) (error : LoggingError) (p : LogProg α) : LogProg α :=
  if ok then p else raise error

end LogProg

end Milhouse
