import Milhouse.Lib.Sorted
import Milhouse.Outbox.Frame
import Mathlib.Data.String.Basic

/-!
# Milhouse — the reader of an outbox

`readOutbox` takes what it finds on disk: the active file, as it was read first, and the entries of
its directory, as they were listed and read afterwards. It gives the frames after a cursor and where
the next cursor stands, or a signal that bytes were lost.

* `readSameFile` — the active file is the one the cursor points into;
* `readFromStart` — there is no cursor, and every retained file is read;
* `recoverRotation` — the cursor's file was rotated, and the files after it are read up to the
  active one.
-/

namespace Milhouse.Outbox

open Json PyJson Text

/-! ## Configuration -/

/-- The characters that stand for themselves in a rotation glob. -/
def isGlobLiteral (c : Char) : Bool := isAlnum c || c = '.' || c = '_' || c = '-'

/-- `_ROTATION_GLOB.fullmatch`, within its bound: literals around exactly one wildcard. -/
def isRotationGlob (glob : String) : Bool :=
  glob.toList.length ≤ 255 && glob.toList.count '*' = 1 &&
    glob.toList.all fun c => isGlobLiteral c || c = '*'

structure ReaderKnobs where
  maxLineBytes : Nat
  maxFileBytes : Nat
  rotationGlob : Option String
  producerAllowlist : List String

/-- `raise OutboxError("MH_OUTBOX_CONFIG", message)`. -/
def configError (message : String) : OutboxError := ⟨"MH_OUTBOX_CONFIG", message⟩

def isBoundedPositive (value : Nat) : Bool := 0 < value && value ≤ maxCanonicalInt

/-- `OutboxReaderConfig.__post_init__`, on fields of the right types. -/
def ReaderKnobs.check (knobs : ReaderKnobs) : Except OutboxError Unit :=
  if !isBoundedPositive knobs.maxLineBytes then
    .error (configError "a bounded positive max_line_bytes is required")
  else if !isBoundedPositive knobs.maxFileBytes then
    .error (configError "a bounded positive max_file_bytes is required")
  else if knobs.maxFileBytes < knobs.maxLineBytes then
    .error (configError "max_line_bytes must not exceed max_file_bytes")
  else if knobs.rotationGlob.any fun glob => glob.isEmpty || 255 < glob.toList.length then
    .error (configError "a bounded rotation glob is required")
  else if knobs.rotationGlob.any fun glob => !isRotationGlob glob then
    .error (configError
      "the rotation glob must be a single filename component with one '*' sequence wildcard")
  else .ok ()

structure OutboxReaderConfig extends ReaderKnobs where
  valid : toReaderKnobs.check = .ok ()

/-! ## Files -/

inductive SecureFileErrorKind where
  | accessControlUnsafe
  | alreadyExists
  | changed
  | cleanupFailed
  | commitUncertain
  | invalid
  | notFound
  | notRegular
  | parentUnsafe
  | permissionFailed
  | securityUnsupported
  | syncFailed
  deriving DecidableEq, Repr

structure FileRead where
  device : Nat
  inode : Nat
  content : Bytes
  deriving DecidableEq, Repr

/-- `(read.device, read.inode)`. -/
def FileRead.identity (read : FileRead) : Nat × Nat := (read.device, read.inode)

/-- How the reading of an open file ends. -/
inductive ReadEnd where
  | complete
  | changed
  | failed
  deriving DecidableEq, Repr

/-- What a file shows to `_read_regular_file`: it is not opened, or it has a size when it is opened
and a content that is read until its end or until an error. -/
inductive FileView where
  | refused (kind : SecureFileErrorKind)
  | opened (read : FileRead) (size : Nat) (ends : ReadEnd)

/-- `_open_error`. -/
def openError : SecureFileErrorKind → OutboxError
  | .notFound => ⟨"MH_OUTBOX_NOT_FOUND", "the outbox file does not exist"⟩
  | .notRegular => ⟨"MH_OUTBOX_NOT_REGULAR", "the outbox file must be a regular non-symlink file"⟩
  | .securityUnsupported => ⟨"MH_OUTBOX_UNSUPPORTED", "safe outbox file access is unavailable"⟩
  | _ => ⟨"MH_OUTBOX_READ", "the outbox file could not be opened"⟩

/-- `_read_regular_file`. -/
def readRegularFile (maxFileBytes : Nat) : FileView → Except OutboxError FileRead
  | .refused kind => .error (openError kind)
  | .opened read size ends =>
      if maxFileBytes < size ∨ maxFileBytes < read.content.length then
        .error ⟨"MH_OUTBOX_FILE_OVERSIZE", "the outbox file exceeds its byte bound"⟩
      else
        match ends with
        | .complete => .ok read
        | .changed => .error ⟨"MH_OUTBOX_READ", "the outbox file identity changed during the read"⟩
        | .failed => .error ⟨"MH_OUTBOX_READ", "the outbox file could not be read"⟩

/-- What was read of a file is its content. -/
theorem readRegularFile_opened {maxFileBytes size : Nat} {file read : FileRead} {ends : ReadEnd}
    (h : readRegularFile maxFileBytes (.opened file size ends) = .ok read) : read = file := by
  unfold readRegularFile at h
  obtain ⟨-, h⟩ := Except.passed_refusal (fun heq => (by cases heq)) h
  cases ends with
  | complete => exact (Except.ok.inj h).symm
  | changed => cases h
  | failed => cases h

/-- The entries of the outbox's directory: their names, and what they show when they are read. -/
abbrev Directory := List (String × FileView)

/-! ## The names of rotated files -/

/-- `rotation_glob.split("*", 1)`. -/
def globParts (glob : String) : List Char × List Char :=
  (glob.toList.takeWhile (· ≠ '*'), (glob.toList.dropWhile (· ≠ '*')).drop 1)

/-- `Path.glob`, on the name of an entry. -/
def matchesGlob (parts : List Char × List Char) (name : String) : Bool :=
  parts.1.isPrefixOf name.toList && parts.2.isSuffixOf name.toList &&
    parts.1.length + parts.2.length ≤ name.toList.length

/-- What the wildcard stands for in a name. -/
def wildcard (parts : List Char × List Char) (name : String) : List Char :=
  (name.toList.drop parts.1.length).take (name.toList.length - parts.1.length - parts.2.length)

/-- `int(pattern.fullmatch(name).group(1))`, of a name that the glob matches. -/
def parseSequence (parts : List Char × List Char) (name : String) : Option Nat :=
  if wildcard parts name ≠ [] ∧ (wildcard parts name).all Char.isDigit = true then
    some (Nat.ofDigitChars 10 (wildcard parts name) 0)
  else none

/-- The loop of `_discover_rotations`, with the files that were found: it stops at a file that cannot
be read, or at a name that gives no new sequence. -/
def discoverEntries (maxFileBytes : Nat) (parts : List Char × List Char) (active : FileRead) :
    List (Nat × FileRead) → Directory → Except OutboxError (Except String (List (Nat × FileRead)))
  | found, [] => .ok (.ok found)
  | found, (name, view) :: rest =>
      match parseSequence parts name with
      | none => .ok (.error "MH_OUTBOX_LOSS_ROTATION_UNPARSEABLE")
      | some sequence => do
          let read ← readRegularFile maxFileBytes view
          -- the glob also matched the active file, or a hard link to it
          if read.identity = active.identity then
            discoverEntries maxFileBytes parts active found rest
          else if sequence ∈ found.map Prod.fst then
            .ok (.error "MH_OUTBOX_LOSS_ROTATION_AMBIGUOUS")
          else discoverEntries maxFileBytes parts active (found ++ [(sequence, read)]) rest

/-- `_discover_rotations`. -/
def discoverRotations (maxFileBytes : Nat) (glob : String) (active : FileRead)
    (directory : Directory) : Except OutboxError (Except String (List (Nat × FileRead))) :=
  discoverEntries maxFileBytes (globParts glob) active []
    ((directory.filter fun entry => matchesGlob (globParts glob) entry.1).insertionSort
      Sorted.KeyLe)

/-! ## Lines -/

/-- `content.rfind(b"\n") + 1`: where the unterminated rest starts. -/
def completeEnd (content : Bytes) : Nat := content.length - (Lines.cut lineFeed content).2.length

/-- `_has_torn_tail`. -/
def hasTornTail (content : Bytes) : Bool := content.getLast?.any (· ≠ lineFeed)

/-- `_iter_complete_lines`, each line with its line feed. -/
def iterCompleteLines (region : Bytes) : List Bytes := (Lines.cut lineFeed region).1

section Reader

variable {P : CanonicalPlatform} (outbox : OutboxRuntime P) (config : OutboxReaderConfig)

/-- `_Parsed`; the codes of the rejected lines in the order of their first occurrence. -/
structure Parsed (P : CanonicalPlatform) where
  frames : List (OutboxFrameV1 P)
  offsets : List Nat
  rejected : List (String × Nat)

/-- `counter[code] += 1`. -/
def countCode (code : String) : List (String × Nat) → List (String × Nat)
  | [] => [(code, 1)]
  | (other, count) :: rest =>
      if other = code then (other, count + 1) :: rest else (other, count) :: countCode code rest

/-- What one line gives: its frame, or the code of its rejection. -/
def parseLine (line : Bytes) : Except String (OutboxFrameV1 P) :=
  if config.maxLineBytes < line.length then .error "MH_OUTBOX_LINE_OVERSIZE"
  else
    match parseOutboxFrameLine outbox line.dropLast with
    | .error error => .error error.code
    | .ok frame =>
        if config.producerAllowlist ≠ [] ∧ frame.producerId ∉ config.producerAllowlist then
          .error "MH_OUTBOX_PRODUCER_DENIED"
        else .ok frame

/-- The loop of `_parse_region`, with the offset of the next line in its file. -/
def parseLines (into : Parsed P) : Nat → List Bytes → Parsed P
  | _, [] => into
  | offset, line :: rest =>
      match parseLine outbox config line with
      | .error code =>
          parseLines { into with rejected := countCode code into.rejected }
            (offset + line.length) rest
      | .ok frame =>
          parseLines { into with frames := into.frames ++ [frame], offsets := into.offsets ++ [offset] }
            (offset + line.length) rest

/-- `_parse_region`. -/
def parseRegion (into : Parsed P) (region : Bytes) (baseOffset : Nat) : Parsed P :=
  parseLines outbox config into baseOffset (iterCompleteLines region)

/-- The regions of several files, each with the offset of its first byte. -/
def parseRegions (regions : List (Bytes × Nat)) : Parsed P :=
  regions.foldl (fun into region => parseRegion outbox config into region.1 region.2) ⟨[], [], []⟩

/-! ## Results -/

structure OutboxLossSignal where
  code : String
  cursorDevice : Nat
  cursorInode : Nat
  cursorOffset : Nat
  cursorSha256 : List Char
  observedSize : Option Nat
  observedSha256 : Option (List Char)

structure OutboxDiagnostics where
  framesEmitted : Nat
  rejectedLines : Nat
  rejectedCodes : List (String × Nat)
  bytesConsumed : Nat
  rotationsCrossed : Nat
  tornTailBytes : Nat

structure OutboxReadResult (P : CanonicalPlatform) where
  newFrames : List (OutboxFrameV1 P)
  nextPosition : OutboxPosition
  nextPositionString : List CodePoint
  lossSignal : Option OutboxLossSignal
  diagnostics : OutboxDiagnostics
  maxObservedSequence : Option Nat
  frameOffsets : List Nat

/-- `_loss`. -/
def loss (code : String) (prior : OutboxPosition) (priorString : List CodePoint)
    (observedSize : Option Nat) (observedSha256 : Option (List Char))
    (maxObserved : Option Nat) : OutboxReadResult P where
  newFrames := []
  nextPosition := prior
  nextPositionString := priorString
  lossSignal := some ⟨code, prior.device, prior.inode, prior.offset, prior.contentSha256,
    observedSize, observedSha256⟩
  diagnostics := ⟨0, 0, [], 0, 0, 0⟩
  maxObservedSequence := maxObserved
  frameOffsets := []

/-- `_success`. -/
def success (parsed : Parsed P) (next : OutboxPosition)
    (bytesConsumed rotationsCrossed tornTailBytes : Nat) (maxObserved : Option Nat) :
    Except OutboxError (OutboxReadResult P) := do
  let nextString ← encodeOutboxPosition P.runtime next
  .ok {
    newFrames := parsed.frames
    nextPosition := next
    nextPositionString := nextString
    lossSignal := none
    diagnostics := ⟨parsed.frames.length, (parsed.rejected.map Prod.snd).sum, parsed.rejected,
      bytesConsumed, rotationsCrossed, tornTailBytes⟩
    maxObservedSequence := maxObserved
    frameOffsets := parsed.offsets }

/-- The position after the first bytes of a file. -/
def positionAt (file : FileRead) (offset : Nat) : Except OutboxError OutboxPosition :=
  OutboxPosition.make file.device file.inode offset
    ((outbox.sha256Hex (file.content.take offset)).map ofChar)

/-! ## The three reads -/

/-- The lines of the active file from `start`. -/
def readActive (active : FileRead) (start : Nat) : Except OutboxError (OutboxReadResult P) := do
  let stop := max start (completeEnd active.content)
  let parsed := parseRegions outbox config [((active.content.take stop).drop start, start)]
  let next ← positionAt outbox active stop
  success parsed next (stop - start) 0 (active.content.length - stop) none

/-- `_read_same_file`. -/
def readSameFile (active : FileRead) :
    Option OutboxPosition → Except OutboxError (OutboxReadResult P)
  | none => readActive outbox config active 0
  | some prior => do
      let priorString ← encodeOutboxPosition P.runtime prior
      if active.content.length < prior.offset then
        .ok (loss "MH_OUTBOX_LOSS_TRUNCATED" prior priorString (some active.content.length) none
          none)
      else
        let prefixHash := outbox.sha256Hex (active.content.take prior.offset)
        if prefixHash ≠ prior.contentSha256 then
          .ok (loss "MH_OUTBOX_LOSS_REWRITE" prior priorString (some active.content.length)
            (some prefixHash) none)
        else readActive outbox config active prior.offset

/-- `_loss_no_cursor`. -/
def lossNoCursor (active : FileRead) (code : String) (maxObserved : Option Nat) :
    Except OutboxError (OutboxReadResult P) := do
  let synthetic ← positionAt outbox { active with content := [] } 0
  let text ← encodeOutboxPosition P.runtime synthetic
  .ok (loss code synthetic text none none maxObserved)

/-- The contents of the files of a chain, where all of them are whole; else the first torn one. -/
def wholeFiles : List (Nat × FileRead) → Except FileRead (List Bytes)
  | [] => .ok []
  | (_, read) :: rest => do
      if hasTornTail read.content then .error read
      let contents ← wholeFiles rest
      .ok (read.content :: contents)

/-- `keys == list(range(first, first + len(keys)))`, of the sequences of files. -/
def isRun (first : Nat) (files : List (Nat × FileRead)) : Bool :=
  files.map Prod.fst = List.range' first files.length

/-- `max(by_sequence)`. -/
def maxSequence (found : List (Nat × FileRead)) : Nat := (found.map Prod.fst).foldl max 0

/-- What a chain of files and the active one give. -/
def readChain (active : FileRead) (regions : List (Bytes × Nat)) (rotationsCrossed : Nat)
    (maxObserved : Option Nat) : Except OutboxError (OutboxReadResult P) := do
  let stop := completeEnd active.content
  let all := regions ++ [(active.content.take stop, 0)]
  let next ← positionAt outbox active stop
  success (parseRegions outbox config all) next (all.map fun region => region.1.length).sum
    rotationsCrossed (active.content.length - stop) maxObserved

/-- `_read_from_start`. -/
def readFromStart (active : FileRead) (directory : Directory) :
    Except OutboxError (OutboxReadResult P) :=
  match config.rotationGlob with
  | none => readSameFile outbox config active none
  | some glob => do
      let discovered ← discoverRotations config.maxFileBytes glob active directory
      match discovered with
      | .error code => lossNoCursor outbox active code none
      | .ok [] => readSameFile outbox config active none
      | .ok found =>
          let rotated := found.insertionSort Sorted.KeyLe
          if !isRun ((rotated.map Prod.fst).headD 0) rotated then
            lossNoCursor outbox active "MH_OUTBOX_LOSS_ROTATION_GONE" (some (maxSequence found))
          else
            match wholeFiles rotated with
            | .error _ =>
                lossNoCursor outbox active "MH_OUTBOX_LOSS_ROTATED_TORN" (some (maxSequence found))
            | .ok contents =>
                readChain outbox config active (contents.map fun content => (content, 0))
                  rotated.length (some (maxSequence found))

/-- The part of `_recover_rotation` after the discovery. -/
def recoverFound (active : FileRead) (prior : OutboxPosition) (priorString : List CodePoint)
    (highWater : Option Nat) (found : List (Nat × FileRead)) :
    Except OutboxError (OutboxReadResult P) :=
  let maxObserved := if found = [] then none else some (maxSequence found)
  match found.find? fun file => file.2.identity = (prior.device, prior.inode) with
  | none => .ok (loss "MH_OUTBOX_LOSS_ROTATION_GONE" prior priorString none none maxObserved)
  | some (cursorSequence, cursorFile) =>
      let above := (found.filter fun file => cursorSequence < file.1).insertionSort Sorted.KeyLe
      if !isRun (cursorSequence + 1) above then
        .ok (loss "MH_OUTBOX_LOSS_ROTATION_GONE" prior priorString none none maxObserved)
      else if highWater.any (maxSequence found < ·) then
        .ok (loss "MH_OUTBOX_LOSS_TOP_RUN_GONE" prior priorString none none maxObserved)
      else if cursorFile.content.length < prior.offset then
        .ok (loss "MH_OUTBOX_LOSS_TRUNCATED" prior priorString (some cursorFile.content.length)
          none maxObserved)
      else
        let prefixHash := outbox.sha256Hex (cursorFile.content.take prior.offset)
        if prefixHash ≠ prior.contentSha256 then
          .ok (loss "MH_OUTBOX_LOSS_REWRITE" prior priorString (some cursorFile.content.length)
            (some prefixHash) maxObserved)
        else if hasTornTail cursorFile.content then
          .ok (loss "MH_OUTBOX_LOSS_ROTATED_TORN" prior priorString
            (some cursorFile.content.length) none maxObserved)
        else
          match wholeFiles above with
          | .error torn =>
              .ok (loss "MH_OUTBOX_LOSS_ROTATED_TORN" prior priorString
                (some torn.content.length) none maxObserved)
          | .ok contents =>
              readChain outbox config active
                ((cursorFile.content.drop prior.offset, prior.offset) ::
                  contents.map fun content => (content, 0))
                (1 + above.length) maxObserved

/-- `_recover_rotation`. -/
def recoverRotation (active : FileRead) (prior : OutboxPosition) (priorString : List CodePoint)
    (directory : Directory) (highWater : Option Nat) :
    Except OutboxError (OutboxReadResult P) :=
  match config.rotationGlob with
  | none => .ok (loss "MH_OUTBOX_LOSS_INODE_REUSE" prior priorString none none none)
  | some glob => do
      let discovered ← discoverRotations config.maxFileBytes glob active directory
      match discovered with
      | .error code => .ok (loss code prior priorString none none none)
      | .ok found => recoverFound outbox config active prior priorString highWater found

/-- `read_outbox`: the active file is read first, then the directory, where it is needed. -/
def readOutbox (active : FileView) (directory : Directory) (priorCursor : Option SourceCursor)
    (lastAcknowledged : Option Nat) : Except Raised (OutboxReadResult P) := do
  if lastAcknowledged.any (maxCanonicalInt < ·) then
    .error (.outbox ⟨"MH_OUTBOX_HIGH_WATER",
      "a bounded non-negative high-water sequence or None is required"⟩)
  match priorCursor with
  | none => do
      let active ← (readRegularFile config.maxFileBytes active).mapError .outbox
      (readFromStart outbox config active directory).mapError .outbox
  | some cursor => do
      let prior ← outboxPositionFromCursor P.runtime P.floats outbox.floatEq cursor
      let active ← (readRegularFile config.maxFileBytes active).mapError .outbox
      if active.identity = (prior.device, prior.inode) then
        (readSameFile outbox config active (some prior)).mapError .outbox
      else
        (recoverRotation outbox config active prior cursor.position directory
          lastAcknowledged).mapError .outbox

end Reader

end Milhouse.Outbox
