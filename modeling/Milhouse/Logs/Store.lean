import Milhouse.Logs.Directory

/-!
# Milhouse — names and contents of the structured log's segments

The directory of the structured log holds `current`, a staging name and the closed rotations. Before
a program touches one it examines the name and the envelope of the file behind it, then reads the
file whole and bounded. An open segment is a header and event lines in canonical spelling, and a
trailer makes it a finished rotation that only its name still holds back. The programs here only
observe the directory, and an `OSError` of a call becomes the store's own error at the place that
made the call.
-/

namespace Milhouse

open Interaction

variable {rt : LogRuntime}

def maxSegmentBytes : Nat := 8 * 1024 * 1024
def maxRotations : Nat := 10000

/-! ## Names and envelopes -/

/-- `_staging_present`. -/
def stagingPresent : LogProg Bool :=
  .op (.statName .staging) fun
    | .found _ => LogProg.done true
    | .missing => LogProg.done false
    | .failed => LogProg.fail "MH_LOG_OPEN" "the staging name could not be examined"

/-- `_list_rotated`; an `OSError` of the scan escapes. -/
def listRotated : LogProg (List Nat) :=
  .op .scan fun
    | none => .ret (.error .uncoded)
    | some sequences =>
        if maxRotations < sequences.length then
          LogProg.fail "MH_LOG_ROTATIONS" "the rotation count exceeds its bound"
        else LogProg.done sequences

/-- `max(rotated, default=0)`. -/
def highest (rotated : List Nat) : Nat := rotated.foldr max 0

def badFile : LoggingError :=
  ⟨"MH_LOG_FILE", "a log file must be an owned, single-link, ACL-free 0o600 file"⟩

/-- `_require_private_file`. -/
def requirePrivateFile (inode : Nat) : LogProg Unit :=
  .op (.fstat inode) fun
    | some info => LogProg.check (info.1 = 1) badFile (LogProg.done ())
    | none => LogProg.raise badFile

/-- `_examine_active_envelope`: a second link is admitted. -/
def examineActiveEnvelope (inode : Nat) : LogProg (Nat × Nat) :=
  .op (.fstat inode) fun
    | some info => LogProg.check (info.1 = 1 || info.1 = 2) badFile (LogProg.done info)
    | none => LogProg.raise badFile

/-- `_read_bounded`. -/
def readBounded (inode bound : Nat) (code : String) : LogProg LogText :=
  .op (.fstat inode) fun
    | none => .ret (.error .uncoded)
    | some info =>
        if bound < info.2 then LogProg.fail code "a log segment exceeds its byte bound"
        else .op (.read inode) fun
          | none => .ret (.error .uncoded)
          | some content => LogProg.done content

/-- `_open_for_append_at`. -/
def openForAppendAt : LogProg Nat :=
  .op (.openFile .current) fun
    | .found inode => (requirePrivateFile inode).andThen fun _ => LogProg.done inode
    | _ => LogProg.fail "MH_LOG_OPEN" "the active segment could not be opened for append"

/-! ## Reading the active segment -/

/-- `_split_active`: the header line, the lines after it, and a torn tail. -/
def splitActive (code : String) (content : LogText) :
    Except LoggingError (LogText × List LogText × Option LogText) :=
  if content = [] then .error ⟨code, "the active segment is empty"⟩
  else
    match Lines.cut '\n' content with
    | ([], _) => .error ⟨code, "the active segment has no complete line"⟩
    | (first :: rest, tail) =>
        if ['\n'] ∈ first :: rest then
          .error ⟨code, "the active segment contains a blank line"⟩
        else .ok (first, rest, if tail = [] then none else some tail)

def needsRecovery (message : String) : LoggingError := ⟨"MH_LOG_RECOVERY_REQUIRED", message⟩

def badEvent : LoggingError := ⟨"MH_LOG_EVENT", "an event line is not a valid v1 internal event"⟩

/-- The loop over the lines after the header: every one an event line, none a trailer. -/
def scanEvents (rt : LogRuntime) (message : String) :
    Option Stamp → List LogText → Except LoggingError (Option Stamp)
  | last, [] => .ok last
  | _, line :: rest =>
      if isTrailerLine rt line then
        if rest = [] then .error (needsRecovery message)
        else .error ⟨"MH_LOG_AMBIGUOUS", "the active segment carries data past a trailer"⟩
      else
        match validateStructuredLogEventLine rt line with
        | .error _ => .error badEvent
        | .ok timestamp => scanEvents rt message (some timestamp) rest

/-- A clean active segment. -/
structure ActiveContent where
  header : StructuredLogHeaderV1
  events : List LogText
  lastEventAt : Option Stamp

/-- The checks that `_open_active` and `_read_active_state` make of the active segment they have
read: one link, no torn tail, a header above every rotation, and event lines only. -/
def checkActive (rt : LogRuntime) (message : String) (content : LogText) (links : Nat)
    (rotated : List Nat) : Except LoggingError ActiveContent :=
  if links ≠ 1 then
    .error (needsRecovery
      "an interrupted rotation left a linked active segment; run log recovery")
  else
    (splitActive "MH_LOG_OPEN" content).bind fun (first, rest, torn) =>
      if torn.isSome then
        .error (needsRecovery "the active segment has a torn tail; run recovery")
      else
        (parseHeaderLine rt first).bind fun header =>
          if header.sequence ≤ highest rotated then
            .error ⟨"MH_LOG_SEQUENCE", "the active sequence conflicts with the rotations"⟩
          else (scanEvents rt message none rest).map fun last => ⟨header, rest, last⟩

def unreadable : LoggingError := ⟨"MH_LOG_OPEN", "the active segment could not be read"⟩

/-- Examine and read the active segment that was opened. -/
def readActive (inode : Nat) : LogProg (Nat × LogText) :=
  (examineActiveEnvelope inode).andThen fun info =>
    (LogProg.normalize unreadable (readBounded inode maxSegmentBytes "MH_LOG_OPEN")).andThen
      fun content => .op .close fun closed =>
        LogProg.check closed unreadable (LogProg.done (info.1, content))

end Milhouse
