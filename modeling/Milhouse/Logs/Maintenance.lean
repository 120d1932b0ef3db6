import Milhouse.Logs.Store

/-!
# Milhouse — closing and reading a segment for retention

Retention deletes the closed rotations whose deadline has passed. So that no event outlives its
deadline in an active segment that nobody closes, it first closes a due one: it reads the segment as
recovery does, appends the trailer, and completes the rotation by linking the rotated name and then
dropping `current`. What it closed it reads again in the same pass. Both reads are bounded by the
size of a segment, but nothing asks whether the trailer still fits under that bound. All of it runs
under the exclusive side of the commit barrier and the log lock. An identity is the inode and the
size, since while the lock is held nothing else changes a file's times.
-/

namespace Milhouse

open Interaction

namespace StructuredLogs

variable {rt : LogRuntime}

/-! ## Recovery -/

def recoverFail (message : String) : LoggingError := ⟨"MH_LOG_RECOVER", message⟩

def rotationBlocked : LoggingError :=
  recoverFail "the rotated name for the interrupted rotation is unavailable"
def rotationIncomplete : LoggingError :=
  recoverFail "the interrupted rotation could not be completed"

/-- The end of `_complete_rotation`: the rotated name is durable before `current` goes. -/
def dropCurrent : LogProg Unit :=
  .op .sync fun synced => LogProg.check synced rotationIncomplete <|
  .op (.unlink .current) fun unlinked => LogProg.check unlinked rotationIncomplete <|
  .op .sync fun synced => LogProg.check synced rotationIncomplete (LogProg.done ())

/-- `_complete_rotation`. -/
def completeRotation (sequence inode links : Nat) : LogProg Unit :=
  if links = 2 then
    .op (.statName (.rotated sequence)) fun (existing : Opened) =>
      LogProg.check (existing = .found inode) rotationBlocked dropCurrent
  else
    .op (.link sequence) fun
      | .done => dropCurrent
      | .occupied => LogProg.raise rotationBlocked
      | .failed => LogProg.raise rotationIncomplete

/-! ## Retention -/

/-- `_ActiveState`. -/
structure ActiveState where
  inode : Nat
  links : Nat
  content : ActiveContent

/-- `_read_active_state`. -/
def readActiveState (rt : LogRuntime) : LogProg (Option ActiveState) :=
  stagingPresent.andThen fun present =>
    if present then
      LogProg.raise (needsRecovery "a staging file is present; run log recovery")
    else
      listRotated.andThen fun rotated =>
        .op (.openFile .current) fun
          | .failed => LogProg.fail "MH_LOG_OPEN" "the active segment could not be opened"
          | .missing => LogProg.done none
          | .found inode =>
              (readActive inode).andThen fun (links, content) =>
                (LogProg.lift (checkActive rt ("an interrupted rotation left a trailer in the " ++
                  "active segment; run recovery") content links rotated)).andThen fun active =>
                  LogProg.done (some ⟨inode, links, active⟩)

def notClosed : LoggingError :=
  ⟨"MH_LOG_ROTATE", "the expired active segment could not be closed"⟩
def closeIncomplete : LoggingError :=
  ⟨"MH_LOG_ROTATE", "the expired active rotation could not be completed"⟩

/-- The trailer `_close_and_rotate_active` writes. -/
def ActiveState.trailer (rt : LogRuntime) (state : ActiveState) (now : Stamp) :
    Except LoggingError StructuredLogTrailerV1 :=
  let header := state.content.header
  (boundedExpiry header.openedAt header.retentionDays).bind fun expiresAt =>
    StructuredLogTrailerV1.make header.sequence now state.content.lastEventAt
      state.content.events.length (rt.sha256 (certifiedBytes rt header state.content.events))
      expiresAt

/-- A failure of `_complete_rotation` is raised with the code of the maintenance rotation. -/
def LogProg.recode (error : LoggingError) (p : LogProg Unit) : LogProg Unit :=
  bind (m := Prog logSignature) p fun
    | .error (.logging _) => LogProg.raise error
    | r => .ret r

/-- `_close_and_rotate_active`. -/
def closeAndRotateActive (rt : LogRuntime) (state : ActiveState) (now : Stamp) : LogProg Unit :=
  (LogProg.lift (state.trailer rt now)).andThen fun trailer =>
    openForAppendAt.andThen fun descriptor =>
      .op .sync fun synced => LogProg.check synced notClosed <|
      .op (.write descriptor .trailer (trailerLine rt trailer)) fun
        | none => LogProg.raise notClosed
        | some written =>
            LogProg.check (written = (trailerLine rt trailer).length) notClosed <|
            .op .sync fun synced => LogProg.check synced notClosed <|
            .op .close fun closed => LogProg.check closed notClosed <|
            LogProg.recode closeIncomplete
              (completeRotation state.content.header.sequence state.inode state.links)

instance lawfulBEqLogText : LawfulBEq LogText := List.instLawfulBEq

/-- The checks `_read_closed_segment` makes of the bytes it has read. -/
def checkClosed (rt : LogRuntime) (content : LogText) (sequence : Nat) :
    Except LoggingError (StructuredLogHeaderV1 × StructuredLogTrailerV1) :=
  match Lines.cut '\n' content with
  | (first :: second :: rest, []) =>
      let lines := second :: rest
      if ['\n'] ∈ first :: lines then
        .error (retentionFail "a closed segment is structurally invalid")
      else
        (parseHeaderLine rt first).bind fun header =>
          (parseTrailerLine rt (lines.getLastD []) header lines.dropLast).bind fun trailer =>
            if header.sequence ≠ sequence ∨ trailer.sequence ≠ sequence then
              .error (retentionFail "a closed segment's sequence disagrees with its name")
            else .ok (header, trailer)
  | ([_], []) => .error (retentionFail "a closed segment is structurally invalid")
  | _ => .error (retentionFail "a closed segment could not be read")

/-- A closed segment that was validated. -/
structure ClosedRead where
  header : StructuredLogHeaderV1
  trailer : StructuredLogTrailerV1
  /-- `_file_identity`. -/
  identity : Nat × Nat

/-- `_read_closed_segment`. -/
def readClosedSegment (rt : LogRuntime) (sequence : Nat) : LogProg ClosedRead :=
  let unread := retentionFail "a closed segment could not be read"
  .op (.openFile (.rotated sequence)) fun
    | .found inode =>
        (requirePrivateFile inode).andThen fun _ =>
          (LogProg.normalize unread (readBounded inode maxSegmentBytes "MH_LOG_RETENTION")).andThen
            fun content => .op (.fstat inode) fun
              | none => LogProg.raise unread
              | some info => .op .close fun closed => LogProg.check closed unread <|
                  (LogProg.lift (checkClosed rt content sequence)).andThen fun read =>
                    LogProg.done ⟨read.1, read.2, (inode, info.2)⟩
    | _ => LogProg.raise unread

end StructuredLogs

end Milhouse
