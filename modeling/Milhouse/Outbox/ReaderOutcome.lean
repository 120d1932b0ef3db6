import Milhouse.Outbox.Reader

/-!
# Milhouse — what a read of an outbox gives

One lemma for each part of the reader, and from them what a read that succeeded did.

* **`readChain_ok`** — the frames of a chain of files, with their offsets, and the next position;
* **`readChain_of`** — a chain is read wherever a position can be made of the active file;
* **`discoverEntries_ok`** — a discovery that succeeds found every file with a sequence;
* `recoverFound_of`, `recoverFound_ok` — a read across a rotation is one of a chain where the chain
  continues what the cursor consumed;
* **`recoverRotation_lossless_iff`** — so it gives no loss signal exactly where nothing is missing
  and the active file has a position.
-/

namespace Milhouse.Outbox

open Json PyJson Text

/-! ## Complete content -/

/-- A content whose last line is complete. -/
def Whole (content : Bytes) : Prop := (Lines.cut lineFeed content).2 = []

/-- A file has no torn tail exactly if it is whole lines. -/
theorem hasTornTail_eq_false_iff {content : Bytes} : hasTornTail content = false ↔ Whole content := by
  unfold hasTornTail Whole
  rw [Lines.rest_eq_nil_iff]
  cases hlast : content.getLast? with
  | none =>
      rw [List.getLast?_eq_none_iff] at hlast
      exact ⟨fun _ => .inl hlast, fun _ => rfl⟩
  | some last =>
      rw [Option.any_some, decide_eq_false_iff_not, not_not, Option.some.injEq]
      constructor
      · exact .inr
      · rintro (rfl | heq)
        · cases hlast
        · exact heq

theorem completeEnd_le (content : Bytes) : completeEnd content ≤ content.length :=
  Nat.sub_le _ _

theorem completeEnd_eq (content : Bytes) :
    completeEnd content = (Lines.cut lineFeed content).1.flatten.length := by
  have hlength := congrArg List.length (@Lines.cut_append _ lineFeed _ content)
  rw [List.length_append] at hlength
  unfold completeEnd
  omega

/-- Up to its complete end a file is its complete lines. -/
theorem take_completeEnd (content : Bytes) :
    content.take (completeEnd content) = (Lines.cut lineFeed content).1.flatten := by
  have hprefix := congrArg (List.take (completeEnd content)) (@Lines.cut_append _ lineFeed _ content)
  rw [← hprefix, completeEnd_eq]
  exact List.take_left

/-- So that part of it is whole. -/
theorem whole_take_completeEnd (content : Bytes) : Whole (content.take (completeEnd content)) := by
  have hcut := Lines.cut_lines (@Lines.isLine_of_mem_cut _ lineFeed _ content) []
  rw [List.append_nil] at hcut
  unfold Whole
  rw [take_completeEnd, hcut]
  rfl

/-- No complete part of a content is longer. -/
theorem le_completeEnd {content : Bytes} {offset : Nat} (hwhole : Whole (content.take offset))
    (hle : offset ≤ content.length) : offset ≤ completeEnd content := by
  have hcut := Lines.cut_complete_append hwhole (content.drop offset)
  rw [List.take_append_drop] at hcut
  have hflatten := @Lines.cut_append _ lineFeed _ (content.take offset)
  rw [show (Lines.cut lineFeed (content.take offset)).2 = [] from hwhole, List.append_nil] at hflatten
  rw [completeEnd_eq, hcut, List.flatten_append, hflatten, List.length_append, List.length_take,
    Nat.min_eq_left hle]
  exact Nat.le_add_right _ _

/-! ## Frames and their offsets -/

section Located

variable {P : CanonicalPlatform} (outbox : OutboxRuntime P) (config : OutboxReaderConfig)

/-- The frame of a line, where the line is accepted. -/
def acceptedLine (line : Bytes) : Option (OutboxFrameV1 P) := (parseLine outbox config line).toOption

/-- The accepted frames of a content that starts at an offset, each with that of its line. -/
def locatedIn (content : Bytes) (offset : Nat) : List (OutboxFrameV1 P × Nat) :=
  Lines.located (acceptedLine outbox config) offset (Lines.cut lineFeed content).1

/-- The frames of a result, each with its offset. -/
def OutboxReadResult.located (result : OutboxReadResult P) : List (OutboxFrameV1 P × Nat) :=
  result.newFrames.zip result.frameOffsets

/-- The loop over the lines of a region appends the accepted frames with their offsets. -/
theorem parseLines_eq (into : Parsed P) (offset : Nat) (lines : List Bytes) :
    (parseLines outbox config into offset lines).frames =
        into.frames ++ (Lines.located (acceptedLine outbox config) offset lines).map Prod.fst ∧
      (parseLines outbox config into offset lines).offsets =
        into.offsets ++ (Lines.located (acceptedLine outbox config) offset lines).map Prod.snd := by
  induction lines generalizing into offset with
  | nil =>
      unfold parseLines Lines.located
      exact ⟨(List.append_nil _).symm, (List.append_nil _).symm⟩
  | cons line rest ih =>
      have haccepted : acceptedLine outbox config line = (parseLine outbox config line).toOption := rfl
      unfold parseLines Lines.located
      cases hline : parseLine outbox config line with
      | error code =>
          -- a rejected line moves the offset only
          rw [haccepted, hline]
          exact ih _ _
      | ok frame =>
          rw [haccepted, hline]
          obtain ⟨hframes, hoffsets⟩ := ih
            { into with frames := into.frames ++ [frame], offsets := into.offsets ++ [offset] }
            (offset + line.length)
          dsimp only at hframes hoffsets ⊢
          rw [hframes, hoffsets, List.append_assoc, List.append_assoc]
          exact ⟨rfl, rfl⟩

/-- The loop over the regions appends those of one region after another. -/
theorem parseRegions_eq (regions : List (Bytes × Nat)) :
    (parseRegions outbox config regions).frames =
        (regions.flatMap fun r => locatedIn outbox config r.1 r.2).map Prod.fst ∧
      (parseRegions outbox config regions).offsets =
        (regions.flatMap fun r => locatedIn outbox config r.1 r.2).map Prod.snd := by
  have hfold : ∀ into : Parsed P,
      (regions.foldl (fun into r => parseRegion outbox config into r.1 r.2) into).frames =
          into.frames ++ (regions.flatMap fun r => locatedIn outbox config r.1 r.2).map Prod.fst ∧
        (regions.foldl (fun into r => parseRegion outbox config into r.1 r.2) into).offsets =
          into.offsets ++ (regions.flatMap fun r => locatedIn outbox config r.1 r.2).map Prod.snd := by
    induction regions with
    | nil => exact fun into => ⟨(List.append_nil _).symm, (List.append_nil _).symm⟩
    | cons region rest ih =>
        intro into
        obtain ⟨hframes, hoffsets⟩ :=
          parseLines_eq outbox config into region.2 (iterCompleteLines region.1)
        obtain ⟨hframes', hoffsets'⟩ := ih (parseRegion outbox config into region.1 region.2)
        rw [List.foldl_cons, hframes', hoffsets', List.flatMap_cons, List.map_append, List.map_append,
          ← List.append_assoc, ← List.append_assoc]
        exact ⟨congrArg (· ++ _) hframes, congrArg (· ++ _) hoffsets⟩
  exact hfold ⟨[], [], []⟩

/-- The frames of a content after a complete part of it. -/
theorem locatedIn_append {content : Bytes} (h : Whole content) (more : Bytes) (offset : Nat) :
    locatedIn outbox config (content ++ more) offset =
      locatedIn outbox config content offset ++
        locatedIn outbox config more (offset + content.length) :=
  Lines.located_cut_append _ offset h more

/-- The unterminated rest has no frames. -/
theorem locatedIn_completeEnd (content : Bytes) (offset : Nat) :
    locatedIn outbox config (content.take (completeEnd content)) offset =
      locatedIn outbox config content offset := by
  have hcut := Lines.cut_lines (@Lines.isLine_of_mem_cut _ lineFeed _ content) []
  rw [List.append_nil] at hcut
  unfold locatedIn
  rw [take_completeEnd, hcut]
  exact congrArg _ (List.append_nil _)

end Located

/-! ## Positions and results -/

section Results

variable {P : CanonicalPlatform} (outbox : OutboxRuntime P) (config : OutboxReaderConfig)

/-- A position at an offset of a file, with the digest of what is before it. -/
structure PositionOf (position : OutboxPosition) (file : FileRead) (offset : Nat) : Prop where
  identity : file.identity = (position.device, position.inode)
  consumed : position.offset = offset
  digest : position.contentSha256 = outbox.sha256Hex (file.content.take offset)

/-- A position that was made names the file, the offset and the digest of what is before it. -/
theorem positionAt_ok {file : FileRead} {offset : Nat} {position : OutboxPosition}
    (h : positionAt outbox file offset = .ok position) : PositionOf outbox position file offset := by
  unfold positionAt OutboxPosition.make at h
  rw [scalars_eq_some_iff.mpr rfl] at h
  dsimp only at h
  split at h
  · split at h
    · split at h
      · split at h
        · obtain rfl := Except.ok.inj h
          exact ⟨rfl, rfl, rfl⟩
        · cases h
      · cases h
    · cases h
  · cases h

/-- A file of which a position can be made at an offset: the device, the inode and the offset are
each within the bound of a position. -/
structure Addressable (file : FileRead) (offset : Nat) : Prop where
  device : file.device ≤ maxCanonicalInt
  inode : file.inode ≤ maxCanonicalInt
  offset : offset ≤ maxCanonicalInt

/-- **A position is made** of every file within these bounds: what the digest gives is always one. -/
theorem positionAt_of {file : FileRead} {offset : Nat} (h : Addressable file offset) :
    ∃ position, positionAt outbox file offset = .ok position := by
  have hdigest := isSha256Hex_sha256Hex outbox (file.content.take offset)
  exact ⟨_, OutboxPosition.make_self
    ⟨file.device, file.inode, offset, _, h.device, h.inode, h.offset, hdigest⟩⟩

theorem PositionOf.addressable {position : OutboxPosition} {file : FileRead} {offset : Nat}
    (h : PositionOf outbox position file offset) : Addressable file offset := by
  obtain ⟨hdevice, hinode⟩ := Prod.mk.inj h.identity
  exact ⟨hdevice ▸ position.deviceBound, hinode ▸ position.inodeBound,
    h.consumed ▸ position.offsetBound⟩

/-- What a read that succeeded gives. -/
structure Succeeded (result : OutboxReadResult P) (regions : List (Bytes × Nat)) (active : FileRead)
    (stop : Nat) (maxObserved : Option Nat) : Prop where
  lossSignal : result.lossSignal = none
  located : result.located = regions.flatMap fun r => locatedIn outbox config r.1 r.2
  position : PositionOf outbox result.nextPosition active stop
  text : encodeOutboxPosition P.runtime result.nextPosition = .ok result.nextPositionString
  maxObserved : result.maxObservedSequence = maxObserved

/-- A successful result lists the accepted frames and points behind what was read. -/
theorem success_ok {regions : List (Bytes × Nat)} {next : OutboxPosition} {active : FileRead}
    {stop consumed crossed torn : Nat} {maxObserved : Option Nat} {result : OutboxReadResult P}
    (hnext : PositionOf outbox next active stop)
    (h : success (parseRegions outbox config regions) next consumed crossed torn maxObserved =
      .ok result) : Succeeded outbox config result regions active stop maxObserved := by
  obtain ⟨hframes, hoffsets⟩ := parseRegions_eq outbox config regions
  obtain ⟨text, htext, h⟩ := Except.bind_eq_ok_iff.mp h
  obtain rfl := Except.ok.inj h
  refine ⟨rfl, ?_, hnext, htext, rfl⟩
  show (parseRegions outbox config regions).frames.zip (parseRegions outbox config regions).offsets = _
  rw [hframes, hoffsets, ← List.unzip_fst, ← List.unzip_snd]
  exact List.zip_unzip _

/-- **What a read of a chain of files gives**: their frames and those of the active file's complete
lines, and the position after these. -/
theorem readChain_ok {active : FileRead} {regions : List (Bytes × Nat)} {crossed : Nat}
    {maxObserved : Option Nat} {result : OutboxReadResult P}
    (h : readChain outbox config active regions crossed maxObserved = .ok result) :
    Succeeded outbox config result
      (regions ++ [(active.content.take (completeEnd active.content), 0)]) active
      (completeEnd active.content) maxObserved := by
  obtain ⟨next, hnext, h⟩ := Except.bind_eq_ok_iff.mp h
  exact success_ok outbox config (positionAt_ok outbox hnext) h

/-- **A chain of files is read** where a position can be made behind the active file's complete
lines: no line makes the read fail, and every position has a text. -/
theorem readChain_of {active : FileRead} (h : Addressable active (completeEnd active.content))
    (regions : List (Bytes × Nat)) (crossed : Nat) (maxObserved : Option Nat) :
    ∃ result, readChain outbox config active regions crossed maxObserved = .ok result := by
  obtain ⟨next, hnext⟩ := positionAt_of outbox h
  have htext := @encodeOutboxPosition_eq P.runtime next
  unfold readChain success
  exact ⟨_, Except.bind_eq_ok_iff.mpr ⟨next, hnext,
    Except.bind_eq_ok_iff.mpr ⟨_, htext, rfl⟩⟩⟩

/-- Reading the active file alone gives its complete lines from the start on. -/
theorem readActive_ok {active : FileRead} {start : Nat} {result : OutboxReadResult P}
    (h : readActive outbox config active start = .ok result) :
    Succeeded outbox config result
      [((active.content.take (max start (completeEnd active.content))).drop start, start)] active
      (max start (completeEnd active.content)) none := by
  obtain ⟨next, hnext, h⟩ := Except.bind_eq_ok_iff.mp h
  exact success_ok outbox config (positionAt_ok outbox hnext) h

end Results

/-! ## Chains of files -/

section Chain

/-- Rotations are read only if each of them is whole. -/
theorem wholeFiles_ok {files : List (Nat × FileRead)} {contents : List Bytes}
    (h : wholeFiles files = .ok contents) :
    contents = files.map (fun f => f.2.content) ∧ ∀ f ∈ files, Whole f.2.content := by
  induction files generalizing contents with
  | nil => exact ⟨(Except.ok.inj h).symm, fun _ hf => absurd hf List.not_mem_nil⟩
  | cons file rest ih =>
      unfold wholeFiles at h
      cases htorn : hasTornTail file.2.content with
      | true => rw [htorn] at h; cases h
      | false =>
          rw [htorn] at h
          obtain ⟨-, -, h⟩ := Except.bind_eq_ok_iff.mp h
          obtain ⟨others, hothers, h⟩ := Except.bind_eq_ok_iff.mp h
          obtain rfl := Except.ok.inj h
          obtain ⟨rfl, hwhole⟩ := ih hothers
          exact ⟨rfl, List.forall_mem_cons.mpr ⟨hasTornTail_eq_false_iff.mp htorn, hwhole⟩⟩

theorem wholeFiles_of {files : List (Nat × FileRead)} (h : ∀ f ∈ files, Whole f.2.content) :
    wholeFiles files = .ok (files.map fun f => f.2.content) := by
  induction files with
  | nil => rfl
  | cons file rest ih =>
      obtain ⟨hfile, hrest⟩ := List.forall_mem_cons.mp h
      unfold wholeFiles
      rw [hasTornTail_eq_false_iff.mpr hfile, ih hrest]
      rfl

/-- A discovery that finds files read every entry, and found those without the active file's
identity. -/
theorem discoverEntries_found {maxFileBytes : Nat} {parts : List Char × List Char}
    {active : FileRead} {found result : List (Nat × FileRead)} {directory : Directory}
    (h : discoverEntries maxFileBytes parts active found directory = .ok (.ok result)) :
    ∃ files : List (Nat × FileRead), List.Forall₂ (fun entry file =>
        parseSequence parts entry.1 = some file.1 ∧
          readRegularFile maxFileBytes entry.2 = .ok file.2) directory files ∧
      result = found ++ files.filter fun f => f.2.identity ≠ active.identity := by
  induction directory generalizing found with
  | nil =>
      refine ⟨[], .nil, ?_⟩
      rw [List.filter_nil, List.append_nil]
      exact (Except.ok.inj (Except.ok.inj h)).symm
  | cons entry rest ih =>
      obtain ⟨name, view⟩ := entry
      unfold discoverEntries at h
      split at h
      · cases h
      · rename_i sequence hsequence
        obtain ⟨read, hread, h⟩ := Except.bind_eq_ok_iff.mp h
        split at h
        · -- the active file, or a link to it
          rename_i hactive
          obtain ⟨files, hfiles, rfl⟩ := ih h
          refine ⟨(sequence, read) :: files, .cons ⟨hsequence, hread⟩ hfiles, ?_⟩
          rw [List.filter_cons_of_neg (by simpa using hactive)]
        · rename_i hactive
          split at h
          · cases h
          · obtain ⟨files, hfiles, rfl⟩ := ih h
            refine ⟨(sequence, read) :: files, .cons ⟨hsequence, hread⟩ hfiles, ?_⟩
            rw [List.filter_cons_of_pos (by simpa using hactive), List.append_assoc]
            rfl

/-- **A discovery that succeeds found every file with a sequence**, the active one apart. -/
theorem discoverEntries_ok {maxFileBytes : Nat} {parts : List Char × List Char} {active : FileRead}
    {found : List (Nat × FileRead)} {directory : Directory}
    {outcome : Except String (List (Nat × FileRead))}
    (hparsed : ∀ entry ∈ directory, (parseSequence parts entry.1).isSome = true)
    (hnodup : (found.map Prod.fst ++
      directory.filterMap fun entry => parseSequence parts entry.1).Nodup)
    (h : discoverEntries maxFileBytes parts active found directory = .ok outcome) :
    ∃ files : List (Nat × FileRead), List.Forall₂ (fun entry file =>
        parseSequence parts entry.1 = some file.1 ∧
          readRegularFile maxFileBytes entry.2 = .ok file.2) directory files ∧
      outcome = .ok (found ++ files.filter fun f => f.2.identity ≠ active.identity) := by
  induction directory generalizing found with
  | nil =>
      refine ⟨[], .nil, ?_⟩
      rw [List.filter_nil, List.append_nil]
      exact (Except.ok.inj h).symm
  | cons entry rest ih =>
      obtain ⟨name, view⟩ := entry
      obtain ⟨hname, hrest⟩ := List.forall_mem_cons.mp hparsed
      obtain ⟨sequence, hsequence⟩ := Option.isSome_iff_exists.mp hname
      unfold discoverEntries at h
      rw [hsequence] at h
      obtain ⟨read, hread, h⟩ := Except.bind_eq_ok_iff.mp h
      have hkeys : ((name, view) :: rest).filterMap (fun entry => parseSequence parts entry.1) =
          sequence :: rest.filterMap fun entry => parseSequence parts entry.1 :=
        List.filterMap_cons_some hsequence
      rw [hkeys] at hnodup
      by_cases hactive : read.identity = active.identity
      · -- the active file, or a link to it
        rw [if_pos hactive] at h
        have hnodup' := hnodup.sublist (List.Sublist.append_left (List.sublist_cons_self _ _) _)
        obtain ⟨files, hfiles, houtcome⟩ := ih hrest hnodup' h
        refine ⟨(sequence, read) :: files, .cons ⟨hsequence, hread⟩ hfiles, ?_⟩
        rw [houtcome, List.filter_cons_of_neg (by simpa using hactive)]
      · rw [if_neg hactive] at h
        have hfresh : sequence ∉ found.map Prod.fst := fun hmem =>
          (List.nodup_append.mp hnodup).2.2 sequence hmem sequence List.mem_cons_self rfl
        rw [if_neg hfresh] at h
        have hnodup' : ((found ++ [(sequence, read)]).map Prod.fst ++
            rest.filterMap fun entry => parseSequence parts entry.1).Nodup := by
          rw [List.map_append, List.append_assoc]
          exact hnodup
        obtain ⟨files, hfiles, houtcome⟩ := ih hrest hnodup' h
        refine ⟨(sequence, read) :: files, .cons ⟨hsequence, hread⟩ hfiles, ?_⟩
        rw [houtcome, List.filter_cons_of_pos (by simpa using hactive), List.append_assoc]
        rfl

end Chain

/-! ## A cursor that is continued -/

section Continued

variable {P : CanonicalPlatform} (outbox : OutboxRuntime P) (config : OutboxReaderConfig)

/-- The files that were found continue what the cursor consumed: its file is among them and begins
as it was consumed, and the files above it are a run, without a gap and up to the highest sequence
that was ever observed, of whole files. -/
structure Continues (found : List (Nat × FileRead)) (prior : OutboxPosition) (highWater : Option Nat)
    (sequence : Nat) (file : FileRead) (above : List (Nat × FileRead)) : Prop where
  cursorFile : (found.find? fun f => f.2.identity = (prior.device, prior.inode)) =
    some (sequence, file)
  sorted : (found.filter fun f => sequence < f.1).insertionSort Sorted.KeyLe = above
  run : isRun (sequence + 1) above = true
  top : highWater.any (maxSequence found < ·) = false
  long : prior.offset ≤ file.content.length
  consumed : outbox.sha256Hex (file.content.take prior.offset) = prior.contentSha256
  whole : Whole file.content
  wholeAbove : ∀ f ∈ above, Whole f.2.content

/-- The regions of a chain that continues a cursor. -/
def continuedRegions (prior : OutboxPosition) (file : FileRead) (above : List (Nat × FileRead)) :
    List (Bytes × Nat) :=
  (file.content.drop prior.offset, prior.offset) :: above.map fun f => (f.2.content, 0)

variable {found : List (Nat × FileRead)} {prior : OutboxPosition} {highWater : Option Nat}
  {active : FileRead} {priorString : List CodePoint}

theorem maxObserved_of_find {sequence : Nat} {file : FileRead} {p : Nat × FileRead → Bool}
    (h : found.find? p = some (sequence, file)) :
    (if found = [] then none else some (maxSequence found)) = some (maxSequence found) := by
  refine if_neg ?_
  rintro rfl
  cases h

/-- **A chain that continues the cursor is read.** -/
theorem recoverFound_of {sequence : Nat} {file : FileRead} {above : List (Nat × FileRead)}
    (h : Continues outbox found prior highWater sequence file above) :
    recoverFound outbox config active prior priorString highWater found =
      readChain outbox config active (continuedRegions prior file above) (1 + above.length)
        (some (maxSequence found)) := by
  have hwhole := wholeFiles_of h.wholeAbove
  unfold recoverFound
  rw [h.cursorFile]
  dsimp only
  rw [h.sorted, h.run, h.top, maxObserved_of_find h.cursorFile, Bool.not_true,
    if_neg Bool.false_ne_true, if_neg Bool.false_ne_true, if_neg (Nat.not_lt.mpr h.long),
    if_neg (not_not.mpr h.consumed), hasTornTail_eq_false_iff.mpr h.whole,
    if_neg Bool.false_ne_true, hwhole]
  dsimp only
  rw [List.map_map]
  rfl

/-- **No other chain is read without a loss signal.** -/
theorem recoverFound_ok {result : OutboxReadResult P}
    (h : recoverFound outbox config active prior priorString highWater found = .ok result)
    (hloss : result.lossSignal = none) :
    ∃ sequence file above, Continues outbox found prior highWater sequence file above ∧
      readChain outbox config active (continuedRegions prior file above) (1 + above.length)
        (some (maxSequence found)) = .ok result := by
  -- every refusal is a result with a signal
  have hrefused : ∀ {code observedSize observedSha256 maxObserved},
      (.ok (loss code prior priorString observedSize observedSha256 maxObserved) :
        Except OutboxError (OutboxReadResult P)) ≠ .ok result := by
    intro code observedSize observedSha256 maxObserved heq
    rw [← Except.ok.inj heq] at hloss
    cases hloss
  have hread := h
  unfold recoverFound at h
  cases hfind : found.find? fun f => f.2.identity = (prior.device, prior.inode) with
  | none => rw [hfind] at h; exact absurd h hrefused
  | some cursor =>
      obtain ⟨sequence, file⟩ := cursor
      rw [hfind] at h
      dsimp only at h
      obtain ⟨hrun, h⟩ := Except.passed_refusal hrefused h
      obtain ⟨htop, h⟩ := Except.passed_refusal hrefused h
      obtain ⟨hlong, h⟩ := Except.passed_refusal hrefused h
      obtain ⟨hconsumed, h⟩ := Except.passed_refusal hrefused h
      obtain ⟨htorn, h⟩ := Except.passed_refusal hrefused h
      split at h
      · exact absurd h hrefused
      · rename_i contents hcontents
        have hcontinues : Continues outbox found prior highWater sequence file _ :=
          ⟨hfind, rfl, by simpa using hrun, by simpa using htop, Nat.not_lt.mp hlong,
            not_not.mp hconsumed, hasTornTail_eq_false_iff.mp (by simpa using htorn),
            (wholeFiles_ok hcontents).2⟩
        exact ⟨sequence, file, _, hcontinues,
          (recoverFound_of outbox config hcontinues).symm.trans hread⟩

/-- Nothing is missing behind a cursor: the rotated files are discovered, and continue it. -/
def NothingMissing (directory : Directory) (active : FileRead) (prior : OutboxPosition)
    (highWater : Option Nat) (found : List (Nat × FileRead)) (sequence : Nat) (file : FileRead)
    (above : List (Nat × FileRead)) : Prop :=
  ∃ glob, config.rotationGlob = some glob ∧
    discoverRotations config.maxFileBytes glob active directory = .ok (.ok found) ∧
    Continues outbox found prior highWater sequence file above

variable {directory : Directory}

/-- **A read without a loss signal** across a rotation: nothing was missing, and it is the read of
the chain. -/
theorem recoverRotation_ok {result : OutboxReadResult P}
    (h : recoverRotation outbox config active prior priorString directory highWater = .ok result)
    (hloss : result.lossSignal = none) :
    ∃ found sequence file above,
      NothingMissing outbox config directory active prior highWater found sequence file above ∧
      readChain outbox config active (continuedRegions prior file above) (1 + above.length)
        (some (maxSequence found)) = .ok result := by
  unfold recoverRotation at h
  cases hglob : config.rotationGlob with
  | none =>
      rw [hglob] at h
      rw [← Except.ok.inj h] at hloss
      cases hloss
  | some glob =>
      rw [hglob] at h
      obtain ⟨discovered, hdiscovered, h⟩ := Except.bind_eq_ok_iff.mp h
      cases discovered with
      | error code =>
          rw [← Except.ok.inj h] at hloss
          cases hloss
      | ok found =>
          obtain ⟨sequence, file, above, hcontinues, hread⟩ :=
            recoverFound_ok outbox config h hloss
          exact ⟨found, sequence, file, above, ⟨glob, hglob, hdiscovered, hcontinues⟩, hread⟩

/-- Where nothing is missing, the read is the read of the chain. -/
theorem recoverRotation_of {found : List (Nat × FileRead)} {sequence : Nat} {file : FileRead}
    {above : List (Nat × FileRead)}
    (h : NothingMissing outbox config directory active prior highWater found sequence file above) :
    recoverRotation outbox config active prior priorString directory highWater =
      readChain outbox config active (continuedRegions prior file above) (1 + above.length)
        (some (maxSequence found)) := by
  obtain ⟨glob, hglob, hdiscovered, hcontinues⟩ := h
  unfold recoverRotation
  rw [hglob]
  show (discoverRotations config.maxFileBytes glob active directory).bind _ = _
  rw [hdiscovered]
  exact recoverFound_of outbox config hcontinues

/-- **A rotation is recovered without a loss signal exactly where nothing is missing** and a position
can be made of the active file, whatever the directory holds. The frames of what is recovered are
those of the rest of the cursor's file, of the files above it in order, and of the complete lines of
the active file, and the next position is behind these. -/
theorem recoverRotation_lossless_iff :
    ((∃ result, recoverRotation outbox config active prior priorString directory highWater =
          .ok result ∧ result.lossSignal = none) ↔
        (∃ found sequence file above,
          NothingMissing outbox config directory active prior highWater found sequence file above) ∧
        Addressable active (completeEnd active.content)) ∧
      ∀ result, recoverRotation outbox config active prior priorString directory highWater =
          .ok result → result.lossSignal = none →
        ∃ found sequence file above,
          NothingMissing outbox config directory active prior highWater found sequence file above ∧
          Succeeded outbox config result (continuedRegions prior file above ++
              [(active.content.take (completeEnd active.content), 0)]) active
            (completeEnd active.content) (some (maxSequence found)) := by
  have hread : ∀ result, recoverRotation outbox config active prior priorString directory highWater =
      .ok result → result.lossSignal = none → ∃ found sequence file above,
        NothingMissing outbox config directory active prior highWater found sequence file above ∧
        Succeeded outbox config result (continuedRegions prior file above ++
            [(active.content.take (completeEnd active.content), 0)]) active
          (completeEnd active.content) (some (maxSequence found)) := by
    intro result h hloss
    obtain ⟨found, sequence, file, above, hnothing, hchain⟩ :=
      recoverRotation_ok outbox config h hloss
    exact ⟨found, sequence, file, above, hnothing, readChain_ok outbox config hchain⟩
  refine ⟨⟨?_, ?_⟩, hread⟩
  · rintro ⟨result, h, hloss⟩
    obtain ⟨found, sequence, file, above, hnothing, hsucceeded⟩ := hread result h hloss
    exact ⟨⟨found, sequence, file, above, hnothing⟩, hsucceeded.position.addressable⟩
  · rintro ⟨⟨found, sequence, file, above, hnothing⟩, haddressable⟩
    obtain ⟨result, hresult⟩ := readChain_of outbox config haddressable
      (continuedRegions prior file above) (1 + above.length) (some (maxSequence found))
    exact ⟨result, (recoverRotation_of outbox config hnothing).trans hresult,
      (readChain_ok outbox config hresult).lossSignal⟩

end Continued

end Milhouse.Outbox
