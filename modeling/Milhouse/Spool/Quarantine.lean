import Milhouse.Spool.Store

/-!
# Milhouse — reading leaves, durable removal, publication and the quarantine move

The programs of `reader.py`, `filesystem.py` and `_move_to_quarantine` over `SpoolOp`. A move is a
digest-verified copy: the copy is staged, linked to a candidate name that must not exist, and
synced before the source is renamed to a private retirement name and, after both sides are
re-proven, unlinked. Identity checks of directories are the `binding` operation, which the
environment may fail at any time.
-/

namespace Milhouse

open Interaction Interaction.Prog

/-- `FileSnapshot`: which inode, and how large. -/
structure Snapshot where
  inode : Nat
  size : Nat
  deriving DecidableEq, Repr

def File.snapshot (f : File) : Snapshot := ⟨f.inode, f.content.length⟩

/-! ## Reading -/

/-- `read_trusted_segment`, with the code of its failure; `inventoried` where the caller passes the
`expected_parent` of its inventory. -/
def readTrustedSegment (fmt : SegmentFormat) (p : Path) (inventoried : Bool) :
    SpoolProg (Except String (ParsedSegment fmt.Frame)) := do
  match (← call (Γ := spoolSignature) (.readTrusted p inventoried) : Except ReadFault File) with
  | .error .absent => pure (.error "MH_SPOOL_NOT_FOUND")
  | .error .changed => pure (.error "MH_SPOOL_CHANGED")
  | .error .unreadable => pure (.error "MH_SPOOL_READ")
  | .ok f =>
      if f.shape = .special then pure (.error "MH_SPOOL_NOT_REGULAR")
      else if f.shape ≠ .private then pure (.error "MH_SPOOL_UNSAFE")
      else if maxSegmentFileBytes < f.content.length then pure (.error "MH_SPOOL_SIZE")
      else match fmt.read f.content with
        | .error e => pure (.error e.code)
        | .ok parsed => pure (.ok parsed)

/-- `_raw_sha256`. -/
def rawSha256 (fmt : SegmentFormat) (p : Path) : SpoolProg (Option String) := do
  match (← call (Γ := spoolSignature) (.readFile p) : Except ReadFault File) with
  | .error _ => pure none
  | .ok f =>
      if f.shape = .special ∨ maxSegmentFileBytes < f.content.length then pure none
      else pure (some (fmt.sha256 f.content))

/-- A private file of bounded size, with its snapshot and digest: the common core of
`_inspect_leaf` and `_certify_target`. -/
def certifyLeaf (fmt : SegmentFormat) (p : Path) : SpoolProg (Option (Snapshot × String)) := do
  match (← call (Γ := spoolSignature) (.readFile p) : Except ReadFault File) with
  | .error _ => pure none
  | .ok f =>
      if f.shape = .private ∧ f.content.length ≤ maxSegmentFileBytes then
        pure (some (f.snapshot, fmt.sha256 f.content))
      else pure none

/-! ## Removal and publication -/

inductive RemoveOutcome where
  | removed
  | failed
  | uncertain
  deriving DecidableEq, Repr

/-- `remove_regular_file_no_follow`. -/
def removeRegularFile (p : Path) : SpoolProg RemoveOutcome := do
  match (← call (Γ := spoolSignature) (.readFile p) : Except ReadFault File) with
  | .error _ => pure .failed
  | .ok f =>
      if f.shape ≠ .private then pure .failed
      else
        let unlinked : Bool ← call (Γ := spoolSignature) (.unlink p)
        if !unlinked then pure .failed
        else
          let synced : Bool ← call (Γ := spoolSignature) (.syncDir p.tree p.day)
          pure (if synced then .removed else .uncertain)

inductive PublishOutcome where
  | published
  | exists
  | failed
  deriving DecidableEq, Repr

/-- Empty the staged inode of a publication that failed before its rename, and report. -/
def sanitizeStaged (stage : Path) : SpoolProg PublishOutcome := do
  let _ : Bool ← call (Γ := spoolSignature) (.truncate stage)
  pure .failed

/-- The rename of a complete staged file to its public name, and what follows it. -/
def publishStaged (stage p : Path) (content : Bytes) : SpoolProg PublishOutcome := do
  match (← call (Γ := spoolSignature) (.rename p.tree p.day stage.name p.name false) :
      RenameOutcome) with
  | .exists => do
      let emptied : Bool ← call (Γ := spoolSignature) (.truncate stage)
      pure (if emptied then .exists else .failed)
  | .failed => sanitizeStaged stage
  | .uncertain => pure .failed
  | .done =>
      let synced : Bool ← call (Γ := spoolSignature) (.syncDir p.tree p.day)
      if !synced then pure .failed
      else match (← call (Γ := spoolSignature) (.readFile p) : Except ReadFault File) with
        | .error _ => pure .failed
        | .ok f => pure (if f.content = content then .published else .failed)

/-- `create_regular_file_no_follow`: stage under a random name, at most `attempts` times, and
publish without replacing. -/
def createRegularFile (p : Path) (content : Bytes) : Nat → SpoolProg PublishOutcome
  | 0 => pure .failed
  | attempts + 1 => do
      match (← call (Γ := spoolSignature) .token : Option String) with
      | none => pure .failed
      | some token =>
          if !isStageToken token then pure .failed
          else
            let stage : Path := ⟨p.tree, p.day, stagePrefix ++ token⟩
            match (← call (Γ := spoolSignature) (.createExcl stage content) : CreateOutcome) with
            | .exists => createRegularFile p content attempts
            | .failed => sanitizeStaged stage
            | .created => publishStaged stage p content

def stagedFileAttempts : Nat := 16

/-- `publish_segment_bytes`: refuse an existing name, then create. -/
def publishSegmentBytes (p : Path) (content : Bytes) : SpoolProg PublishOutcome := do
  match (← call (Γ := spoolSignature) (.readFile p) : Except ReadFault File) with
  | .ok _ => pure .exists
  | .error .absent => createRegularFile p content stagedFileAttempts
  | .error _ => pure .failed

/-! ## Names of the quarantine -/

def maxMoveAttempts : Nat := 100

/-- `NAME_MAX` of the spool's file system. -/
def nameMax : Nat := 255

/-- `_retirement_name`; every file of the spool lives on one device, numbered 0. -/
def retirementName (snapshot : Snapshot) (candidate : String) : String :=
  retirePrefix ++ "0-" ++ hexText snapshot.inode ++ "--" ++ candidate

/-- The candidate a retirement name encodes, if the name is this object's: `_retirement_candidate`. -/
def retirementCandidate (name : String) (snapshot : Snapshot) : Option String :=
  let own := (retirementName snapshot "").toList
  if own <+: name.toList ∧ own.length < name.toList.length then
    some (String.ofList (name.toList.drop own.length))
  else none

/-- `_bounded_candidate_base`. -/
def boundedCandidateBase (fmt : SegmentFormat) (name : String) (snapshot : Snapshot)
    (digest : String) : Option String :=
  let overhead := (retirementName snapshot "99.").utf8ByteSize
  if 0 < name.utf8ByteSize ∧ name.utf8ByteSize + overhead ≤ nameMax then some name
  else
    let token := fmt.sha256 (name.toUTF8.toList ++ 0 :: digest.toUTF8.toList)
    let compact := ".milhouse-quarantine-" ++ token
    if compact.utf8ByteSize + overhead ≤ nameMax then some compact else none

/-! ## The copy -/

/-- A certified target, and whether this pass created it. -/
structure PlacedCopy where
  candidate : String
  snapshot : Snapshot
  created : Bool

inductive CopyOutcome where
  | placed (snapshot : Snapshot)
  | exists
  | failed
  | uncertain

section Copy

variable (fmt : SegmentFormat) (day : Day)

/-- `_certify_target`. -/
def certifyTarget (tree : Tree) (name digest : String) : SpoolProg (Option Snapshot) := do
  match ← certifyLeaf fmt ⟨tree, day, name⟩ with
  | some (snapshot, found) => pure (if found = digest then some snapshot else none)
  | none => pure none

/-- `_certify_live_target`. -/
def certifyLiveTarget (candidate digest : String) : SpoolProg (Option Snapshot) := do
  let live : Bool ← call (Γ := spoolSignature) (.binding .quarantine day)
  if !live then pure none
  else
    let found ← certifyTarget fmt day .quarantine candidate digest
    let bound : Bool ← call (Γ := spoolSignature) (.binding .quarantine day)
    pure (if bound then found else none)

/-- `_cleanup_candidate_at`: remove one exact certified candidate. -/
def cleanupCandidate (candidate digest : String) (expected : Snapshot) : SpoolProg Bool := do
  let found ← certifyTarget fmt day .quarantine candidate digest
  if found ≠ some expected then pure false
  else
    let path : Path := ⟨.quarantine, day, candidate⟩
    let unlinked : Bool ← call (Γ := spoolSignature) (.unlink path)
    if !unlinked then pure false
    else
      let synced : Bool ← call (Γ := spoolSignature) (.syncDir .quarantine day)
      if !synced then pure false
      else match (← call (Γ := spoolSignature) (.readFile path) : Except ReadFault File) with
        | .error .absent => pure true
        | _ => pure false

/-- Unlink the copy's staging name, best effort. -/
def dropStage : SpoolProg Bool := call (Γ := spoolSignature) (.unlink ⟨.quarantine, day, quarantineStage⟩)

/-- What a failure after the candidate appeared leaves: the candidate itself where the chain still
holds, for the caller to adopt, else its cleanup. -/
def copyFailed (candidate digest : String) (published : Option Snapshot) :
    SpoolProg CopyOutcome := do
  let live : Bool ← call (Γ := spoolSignature) (.binding .quarantine day)
  if live then pure .failed
  else match published with
    | none => pure .uncertain
    | some snapshot =>
        let cleaned ← cleanupCandidate fmt day candidate digest snapshot
        pure (if cleaned then .failed else .uncertain)

/-- Certify a candidate that has just been linked and synced. -/
def certifyPublished (candidate digest : String) (snapshot : Snapshot) :
    SpoolProg CopyOutcome := do
  let found ← certifyTarget fmt day .quarantine candidate digest
  if found = none then
    let cleaned ← cleanupCandidate fmt day candidate digest snapshot
    pure (if cleaned then .failed else .uncertain)
  else if found ≠ some snapshot then pure .failed
  else
    let live ← certifyLiveTarget fmt day candidate digest
    let bound : Bool ← call (Γ := spoolSignature) (.binding .quarantine day)
    if !bound then
      let cleaned ← cleanupCandidate fmt day candidate digest snapshot
      pure (if cleaned then .failed else .uncertain)
    else if live ≠ some snapshot then pure .failed
    else pure (.placed snapshot)

/-- Link the complete staged copy to its candidate name, drop the stage and sync. -/
def linkStaged (candidate digest : String) : SpoolProg CopyOutcome := do
  match (← call (Γ := spoolSignature) (.link .quarantine day quarantineStage candidate) :
      RenameOutcome) with
  | .exists => do
      let _ ← dropStage day
      pure .exists
  | .failed | .uncertain => do
      let _ ← dropStage day
      pure .failed
  | .done =>
      let dropped ← dropStage day
      match (← call (Γ := spoolSignature) (.readFile ⟨.quarantine, day, candidate⟩) :
          Except ReadFault File) with
      | .error _ => copyFailed fmt day candidate digest none
      | .ok f =>
          if !dropped then
            let _ ← dropStage day
            copyFailed fmt day candidate digest (some f.snapshot)
          else
            let synced : Bool ← call (Γ := spoolSignature) (.syncDir .quarantine day)
            if !synced then copyFailed fmt day candidate digest (some f.snapshot)
            else certifyPublished fmt day candidate digest f.snapshot

/-- `_publish_copy`: stage, clearing crash debris once, and link. -/
def publishCopy (candidate : String) (content : Bytes) (digest : String) :
    SpoolProg CopyOutcome := do
  let live : Bool ← call (Γ := spoolSignature) (.binding .quarantine day)
  if !live then pure .failed
  else
    let stage : Path := ⟨.quarantine, day, quarantineStage⟩
    match (← call (Γ := spoolSignature) (.createExcl stage content) : CreateOutcome) with
    | .failed => do
        let _ ← dropStage day
        pure .failed
    | .created => linkStaged fmt day candidate digest
    | .exists => do
        let cleared ← dropStage day
        if !cleared then pure .failed
        else match (← call (Γ := spoolSignature) (.createExcl stage content) : CreateOutcome) with
          | .created => linkStaged fmt day candidate digest
          | .exists => pure .failed
          | .failed => do
              let _ ← dropStage day
              pure .failed

inductive AdoptOutcome where
  | adopted (snapshot : Snapshot)
  | different
  | absent
  | unknown

/-- `_adopt_existing`. -/
def adoptExisting (candidate digest : String) : SpoolProg AdoptOutcome := do
  let live : Bool ← call (Γ := spoolSignature) (.binding .quarantine day)
  if !live then pure .unknown
  else match (← call (Γ := spoolSignature) (.readFile ⟨.quarantine, day, candidate⟩) :
      Except ReadFault File) with
    | .error .absent => pure .absent
    | .error _ => pure .unknown
    | .ok f =>
        if f.shape ≠ .private ∨ maxSegmentFileBytes < f.content.length then pure .different
        else if fmt.sha256 f.content ≠ digest then pure .different
        else
          let synced : Bool ← call (Γ := spoolSignature) (.syncDir .quarantine day)
          if !synced then pure .unknown
          else
            let found ← certifyLiveTarget fmt day candidate digest
            pure (if found = some f.snapshot then .adopted f.snapshot else .unknown)

/-! ## The source -/

inductive FinalOutcome where
  | completed
  | uncertain
  | cleanup
  deriving DecidableEq, Repr

/-- Remove this pass's empty retirement reservation: `_cleanup_empty_reservation`. -/
def cleanupEmptyReservation (retirement : String) (reserved : Nat) : SpoolProg Unit := do
  let path : Path := ⟨.pending, day, retirement⟩
  match (← call (Γ := spoolSignature) (.readFile path) : Except ReadFault File) with
  | .error _ => pure ()
  | .ok f =>
      if f.inode ≠ reserved ∨ f.content ≠ [] ∨ f.shape = .loose ∨ f.shape = .special then pure ()
      else
        let live : Bool ← call (Γ := spoolSignature) (.binding .pending day)
        if !live then pure ()
        else
          let unlinked : Bool ← call (Γ := spoolSignature) (.unlink path)
          if unlinked then
            let _ : Bool ← call (Γ := spoolSignature) (.syncDir .pending day)
            pure ()
          else pure ()

/-- Re-prove both namespaces and unlink the retired source. -/
def unlinkRetired (retirement : String) (placed : PlacedCopy) (digest : String) :
    SpoolProg FinalOutcome := do
  let target ← certifyLiveTarget fmt day placed.candidate digest
  if target ≠ some placed.snapshot then pure .cleanup
  else
    let pendingHolds : Bool ← call (Γ := spoolSignature) (.binding .pending day)
    if !pendingHolds then pure .uncertain
    else
      let quarantineHolds : Bool ← call (Γ := spoolSignature) (.binding .quarantine day)
      if !quarantineHolds then pure .cleanup
      else
        let unlinked : Bool ← call (Γ := spoolSignature) (.unlink ⟨.pending, day, retirement⟩)
        if !unlinked then pure .uncertain
        else
          let synced : Bool ← call (Γ := spoolSignature) (.syncDir .pending day)
          if !synced then pure .uncertain
          else
            let bound : Bool ← call (Γ := spoolSignature) (.binding .pending day)
            let again ← certifyLiveTarget fmt day placed.candidate digest
            pure (if bound ∧ again = some placed.snapshot then .completed else .uncertain)

/-- Rename the source over its private reservation, sync, and certify what was retired. -/
def retireSource (name retirement : String) (snapshot : Snapshot) (placed : PlacedCopy)
    (digest : String) : SpoolProg FinalOutcome := do
  match (← call (Γ := spoolSignature) (.createExcl ⟨.pending, day, retirement⟩ []) :
      CreateOutcome) with
  | .exists | .failed => pure .uncertain
  | .created =>
      match (← call (Γ := spoolSignature) (.readFile ⟨.pending, day, retirement⟩) :
          Except ReadFault File) with
      | .error _ => pure .uncertain
      | .ok reserved =>
          match (← call (Γ := spoolSignature) (.rename .pending day name retirement true) :
              RenameOutcome) with
          | .exists | .failed | .uncertain => do
              cleanupEmptyReservation day retirement reserved.inode
              pure .uncertain
          | .done =>
              let synced : Bool ← call (Γ := spoolSignature) (.syncDir .pending day)
              if !synced then pure .uncertain
              else
                let retired ← certifyTarget fmt day .pending retirement digest
                if retired ≠ some snapshot then pure .uncertain
                else unlinkRetired fmt day retirement placed digest

/-- `_finalize_source_removal`. -/
def finalizeSourceRemoval (name : String) (snapshot : Snapshot) (placed : PlacedCopy)
    (digest : String) : SpoolProg FinalOutcome := do
  let live : Bool ← call (Γ := spoolSignature) (.binding .pending day)
  if !live then pure .uncertain
  else
    let target ← certifyLiveTarget fmt day placed.candidate digest
    if target ≠ some placed.snapshot then pure .cleanup
    else
      let quarantineHolds : Bool ← call (Γ := spoolSignature) (.binding .quarantine day)
      if !quarantineHolds then pure .cleanup
      else match (← call (Γ := spoolSignature) (.readFile ⟨.pending, day, name⟩) :
          Except ReadFault File) with
        | .error _ => pure .uncertain
        | .ok f =>
            if f.snapshot ≠ snapshot then pure .uncertain
            else
              let bound : Bool ← call (Γ := spoolSignature) (.binding .pending day)
              if !bound then pure .uncertain
              else match retirementCandidate name snapshot with
                | some _ => unlinkRetired fmt day name placed digest
                | none =>
                    retireSource fmt day name (retirementName snapshot placed.candidate) snapshot
                      placed digest

/-! ## The move -/

/-- How a move ended: done, not possible with the source untouched, or not decided. -/
inductive MoveOutcome where
  | moved
  | blocked (reason : String)
  | uncertain
  deriving DecidableEq, Repr

/-- The copy placed under the first usable candidate name, or why none was. -/
inductive PlaceOutcome where
  | placed (copy : PlacedCopy)
  | blocked (reason : String)
  | uncertain

/-- The candidate loop of `_move_to_quarantine`, from attempt `attempt` on. -/
def placeCopy (base : String) (content : Bytes) (digest : String) :
    Nat → Nat → SpoolProg PlaceOutcome
  | _, 0 => pure (.blocked "collision")
  | attempt, remaining + 1 => do
      let candidate := if attempt = 0 then base else toString attempt ++ "." ++ base
      if candidate = quarantineStage then placeCopy base content digest (attempt + 1) remaining
      else match ← publishCopy fmt day candidate content digest with
        | .placed snapshot => pure (.placed ⟨candidate, snapshot, true⟩)
        | .uncertain => pure .uncertain
        | .exists =>
            match ← adoptExisting fmt day candidate digest with
            | .adopted snapshot => pure (.placed ⟨candidate, snapshot, false⟩)
            | .different | .absent => placeCopy base content digest (attempt + 1) remaining
            | .unknown => pure .uncertain
        | .failed =>
            match ← adoptExisting fmt day candidate digest with
            | .adopted snapshot => pure (.placed ⟨candidate, snapshot, false⟩)
            | .different | .absent => pure (.blocked "io")
            | .unknown => pure .uncertain

/-- Read the source again and require the classified snapshot and digest. -/
def rereadSource (name : String) (snapshot : Snapshot) (digest : String) :
    SpoolProg (Option Bytes) := do
  let live : Bool ← call (Γ := spoolSignature) (.binding .pending day)
  if !live then pure none
  else match (← call (Γ := spoolSignature) (.readFile ⟨.pending, day, name⟩) :
      Except ReadFault File) with
    | .error _ => pure none
    | .ok f =>
        if f.snapshot ≠ snapshot ∨ fmt.sha256 f.content ≠ digest then pure none
        else
          let pendingHolds : Bool ← call (Γ := spoolSignature) (.binding .pending day)
          let quarantineHolds : Bool ← call (Γ := spoolSignature) (.binding .quarantine day)
          pure (if pendingHolds ∧ quarantineHolds then some f.content else none)

/-- Remove the source of a placed copy, and the copy itself where its binding was lost. -/
def finishMove (name : String) (snapshot : Snapshot) (digest : String) (placed : PlacedCopy) :
    SpoolProg MoveOutcome := do
  match ← finalizeSourceRemoval fmt day name snapshot placed digest with
  | .completed => pure .moved
  | .uncertain => pure .uncertain
  | .cleanup =>
      if placed.created then
        let _ ← cleanupCandidate fmt day placed.candidate digest placed.snapshot
        pure .uncertain
      else pure .uncertain

/-- `_move_to_quarantine`. -/
def moveToQuarantine (name : String) (snapshot : Snapshot) (digest : String) :
    SpoolProg MoveOutcome := do
  let opened : Bool ← call (Γ := spoolSignature) (.ensureDir .quarantine day false)
  if !opened then pure (.blocked "unreachable")
  else match ← rereadSource fmt day name snapshot digest with
    | none => pure (.blocked "changed")
    | some content =>
        let base := match retirementCandidate name snapshot with
          | some candidate => some candidate
          | none => boundedCandidateBase fmt name snapshot digest
        match base with
        | none => pure (.blocked "collision")
        | some base =>
            match ← placeCopy fmt day base content digest 0 maxMoveAttempts with
            | .blocked reason => pure (.blocked reason)
            | .uncertain => pure .uncertain
            | .placed copy => finishMove fmt day name snapshot digest copy

end Copy

end Milhouse
