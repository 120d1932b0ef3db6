import Milhouse.Outbox.Collector
import Milhouse.Outbox.Continuity
import Mathlib.Data.List.Flatten

/-!
# Milhouse — the record id of a physical line

Over a history of a producer and of the reads of its outbox, an accepted line stays where it is: in
its file, at its offset. A read gives lines of the stream, each at its offset, whichever file they are
found in now; so the id of its record does not change either. Here the producer may delete rotated
files as it likes, and may give a new file the identity of a deleted one.

* `PhysicalLine`, `Stream.lines` — the accepted lines of a stream, each with its file;
* `Extends.lines_subset` — a producer never takes a line away or moves it;
* **`readOutbox_gives`** — a read that succeeds gives lines of the stream, in their order;
* **`record_ids_of_lines`** — reads give one line one record id, and two lines of a file two ids.
-/

namespace Milhouse.Outbox

open Json PyJson Text Sorted Transition Domain

/-! ## Physical lines -/

/-- An accepted line: the number of its file, its offset in it, and its frame. -/
structure PhysicalLine (P : CanonicalPlatform) where
  file : Nat
  offset : Nat
  frame : OutboxFrameV1 P

/-- What a read gives of a line. -/
def PhysicalLine.entry {P : CanonicalPlatform} (line : PhysicalLine P) : OutboxFrameV1 P × Nat :=
  (line.frame, line.offset)

/-- The line of an entry of a file. -/
def lineOf {P : CanonicalPlatform} (file : Nat) (entry : OutboxFrameV1 P × Nat) : PhysicalLine P :=
  ⟨file, entry.2, entry.1⟩

section Lines

variable {P : CanonicalPlatform} (outbox : OutboxRuntime P) (config : OutboxReaderConfig)

/-- The accepted lines of a file. -/
def fileLines (f : Nat × FileRead) : List (PhysicalLine P) :=
  (locatedIn outbox config f.2.content 0).map (lineOf f.1)

/-- The accepted lines of a stream. -/
def Stream.lines (s : Stream) : List (PhysicalLine P) :=
  (numbered s.base s.files).flatMap (fileLines outbox config)

variable {outbox config}

@[simp] theorem map_entry_lineOf (file : Nat) (entries : List (OutboxFrameV1 P × Nat)) :
    (entries.map (lineOf file)).map PhysicalLine.entry = entries := by
  rw [List.map_map]
  exact List.map_id _

/-- The lines of a stream are those of the rotated files, and those of the active one. -/
theorem Stream.lines_eq (s : Stream) :
    s.lines outbox config = (numbered s.base s.rotated).flatMap (fileLines outbox config) ++
      fileLines outbox config (s.base + s.rotated.length, s.active) := by
  unfold Stream.lines Stream.files
  rw [numbered_append, List.flatMap_append]
  exact congrArg _ (List.append_nil _)

/-- The lines of a stream are in one of its files. -/
theorem Stream.mem_lines {s : Stream} {line : PhysicalLine P} :
    line ∈ s.lines outbox config ↔ ∃ i file, s.files[i]? = some file ∧ line.file = s.base + i ∧
      line.entry ∈ locatedIn outbox config file.content 0 := by
  unfold Stream.lines
  rw [List.mem_flatMap]
  constructor
  · rintro ⟨⟨n, file⟩, hfile, hline⟩
    obtain ⟨i, hi, rfl⟩ := mem_numbered.mp hfile
    obtain ⟨entry, hentry, rfl⟩ := List.mem_map.mp hline
    exact ⟨i, file, hi, rfl, hentry⟩
  · rintro ⟨i, file, hi, hn, hline⟩
    exact ⟨(line.file, file), mem_numbered.mpr ⟨i, hi, hn⟩, List.mem_map.mpr ⟨line.entry, hline, rfl⟩⟩

/-- **A file and an offset in it** are those of one line. -/
theorem Stream.lines_unique {s : Stream} {line line' : PhysicalLine P}
    (h : line ∈ s.lines outbox config) (h' : line' ∈ s.lines outbox config)
    (hfile : line.file = line'.file) (hoffset : line.offset = line'.offset) :
    line.frame = line'.frame := by
  obtain ⟨i, file, hi, hn, hline⟩ := Stream.mem_lines.mp h
  obtain ⟨j, file', hj, hn', hline'⟩ := Stream.mem_lines.mp h'
  obtain rfl : i = j := by omega
  obtain rfl := Option.some.inj (hi.symm.trans hj)
  unfold PhysicalLine.entry at hline hline'
  rw [← hoffset] at hline'
  exact Lines.located_unique
    (fun l hl => (@Lines.isLine_of_mem_cut _ lineFeed _ file.content l hl).ne_nil) hline hline'

/-- More bytes at the end of a content leave its lines where they are. -/
theorem locatedIn_subset {content more : Bytes} {entry : OutboxFrameV1 P × Nat}
    (hbegins : content <+: more) (h : entry ∈ locatedIn outbox config content 0) :
    entry ∈ locatedIn outbox config more 0 := by
  obtain ⟨rest, rfl⟩ := hbegins
  rw [← locatedIn_completeEnd] at h
  have hsplit : content ++ rest = content.take (completeEnd content) ++
      (content.drop (completeEnd content) ++ rest) := by
    rw [← List.append_assoc, List.take_append_drop]
  rw [hsplit, locatedIn_append outbox config (whole_take_completeEnd content)]
  exact List.mem_append_left _ h

/-- **A producer leaves its lines where they are.** -/
theorem Extends.lines_subset {old new : Stream} (h : Extends old new) :
    old.lines outbox config ⊆ new.lines outbox config := by
  intro line hline
  obtain ⟨i, file, hi, hn, hentry⟩ := Stream.mem_lines.mp hline
  rw [← h.base] at hn
  have hlt := (List.getElem?_eq_some_iff.mp hi).1
  rw [Stream.files, List.length_append, List.length_singleton] at hlt
  rcases Nat.lt_or_ge i old.rotated.length with hrotated | hactive
  · rw [Stream.files, List.getElem?_append_left hrotated] at hi
    exact Stream.mem_lines.mpr ⟨i, file, h.getElem?_old hi, hn, hentry⟩
  · -- the line is in the file that was active
    obtain rfl : i = old.rotated.length := by omega
    obtain ⟨opened, hopened, -, hbegins⟩ := h.opened
    rw [Stream.getElem?_active] at hi
    obtain rfl := Option.some.inj hi
    exact Stream.mem_lines.mpr ⟨_, opened, hopened, hn, locatedIn_subset hbegins hentry⟩

end Lines

/-! ## What a read gives -/

section Read

variable {P : CanonicalPlatform} (outbox : OutboxRuntime P) (config : OutboxReaderConfig)

/-- The entries of a read are those of these lines of the stream, in their order. -/
def Attributed (s : Stream) (result : OutboxReadResult P) (lines : List (PhysicalLine P)) : Prop :=
  lines.Sublist (s.lines outbox config) ∧ result.located = lines.map PhysicalLine.entry

/-- A read gives lines of the stream, and ends after those of the active file. -/
structure Gives (s : Stream) (result : OutboxReadResult P) : Prop where
  lines : ∃ lines, Attributed outbox config s result lines
  position : PositionOf outbox result.nextPosition s.active (completeEnd s.active.content)
  text : encodeOutboxPosition P.runtime result.nextPosition = .ok result.nextPositionString

/-- A cursor of a position after some complete lines. -/
def Covers (cursor : SourceCursor) (covered : Bytes) : Prop :=
  ∃ position, encodeOutboxPosition P.runtime position = .ok cursor.position ∧ Whole covered ∧
    position.offset = covered.length ∧ position.contentSha256 = outbox.sha256Hex covered

/-- No file that is there begins with other bytes of the digest of these. -/
def Recognized (s : Stream) (covered : Bytes) : Prop :=
  ∀ f ∈ s.present, covered.length ≤ f.content.length →
    outbox.sha256Hex (f.content.take covered.length) = outbox.sha256Hex covered →
      f.content.take covered.length = covered

variable {outbox config} {s : Stream} {result : OutboxReadResult P}

/-- Behind a complete part of a file are the last of its lines. -/
theorem locatedIn_drop_sublist {file : FileRead} {n start : Nat}
    (hwhole : Whole (file.content.take start)) (hle : start ≤ file.content.length) :
    ((locatedIn outbox config (file.content.drop start) start).map (lineOf n)).Sublist
      (fileLines outbox config (n, file)) := by
  have happend := locatedIn_append outbox config hwhole (file.content.drop start) 0
  rw [List.take_append_drop, List.length_take, Nat.min_eq_left hle, Nat.zero_add] at happend
  unfold fileLines
  rw [happend, List.map_append]
  exact List.sublist_append_right _ _

/-- A read of the active file from a complete part of it gives the last of its lines. -/
theorem readActive_gives {start : Nat} (hwhole : Whole (s.active.content.take start))
    (hle : start ≤ s.active.content.length)
    (h : readActive outbox config s.active start = .ok result) : Gives outbox config s result := by
  have hread := readActive_ok outbox config h
  have hstop := le_completeEnd hwhole hle
  rw [Nat.max_eq_right hstop] at hread
  refine ⟨⟨(locatedIn outbox config (s.active.content.drop start) start).map
    (lineOf (s.base + s.rotated.length)), ?_, ?_⟩, hread.position, hread.text⟩
  · rw [Stream.lines_eq]
    exact (locatedIn_drop_sublist hwhole hle).trans (List.sublist_append_right _ _)
  · -- what is behind the last complete line has no frames
    have hsplit := @locatedIn_split P outbox config _ _ hwhole hle
    have happend := locatedIn_append outbox config hwhole (s.active.content.drop start) 0
    rw [List.take_append_drop, List.length_take, Nat.min_eq_left hle, Nat.zero_add, ← hsplit]
      at happend
    rw [hread.located, List.flatMap_singleton, map_entry_lineOf]
    exact List.append_cancel_left happend

/-- A read of a chain gives the lines of its regions, and all of the active file. -/
theorem readChain_gives {regions : List (Bytes × Nat)} {crossed : Nat} {maxObserved : Option Nat}
    {lines : List (PhysicalLine P)}
    (hsublist : lines.Sublist ((numbered s.base s.rotated).flatMap (fileLines outbox config)))
    (hregions : regions.flatMap (fun r => locatedIn outbox config r.1 r.2) =
      lines.map PhysicalLine.entry)
    (h : readChain outbox config s.active regions crossed maxObserved = .ok result) :
    Gives outbox config s result := by
  have hread := readChain_ok outbox config h
  refine ⟨⟨lines ++ fileLines outbox config (s.base + s.rotated.length, s.active), ?_, ?_⟩,
    hread.position, hread.text⟩
  · rw [Stream.lines_eq]
    exact hsublist.append_right _
  · rw [hread.located, List.flatMap_append, List.flatMap_singleton, locatedIn_completeEnd, hregions,
      List.map_append, fileLines, map_entry_lineOf]

/-- The frames of files are those of their lines. -/
theorem flatMap_fileLines (files : List (Nat × FileRead)) :
    (files.map fun f => (f.2.content, 0)).flatMap (fun r => locatedIn outbox config r.1 r.2) =
      (files.flatMap (fileLines outbox config)).map PhysicalLine.entry := by
  rw [List.flatMap_map, List.map_flatMap]
  exact List.flatMap_congr fun f _ => (map_entry_lineOf f.1 _).symm

/-- Files in strict order that were found among those of a stream are in the order of the stream. -/
theorem sublist_of_found {found files : List (Nat × FileRead)} (hperm : found.Perm s.retained)
    (hfiles : files.Pairwise KeyLt) (hsubset : files ⊆ found) :
    files.Sublist (numbered s.base s.rotated) := by
  refine sublist_of_keyLt hfiles (numbered_keyLt _ _) fun f hf => ?_
  have hretained := hperm.mem_iff.mp (hsubset hf)
  unfold Stream.retained at hretained
  exact (List.mem_filter.mp hretained).1

theorem nodup_found {found : List (Nat × FileRead)} (hperm : found.Perm s.retained) :
    (found.map Prod.fst).Nodup :=
  (hperm.map Prod.fst).nodup_iff.mpr (nodup_retained s)

/-- A read without a cursor. -/
theorem readFromStart_gives {directory : Directory}
    (hfound : ∀ glob ∈ config.rotationGlob, ∀ found,
      discoverRotations config.maxFileBytes glob s.active directory = .ok (.ok found) →
        found.Perm s.retained)
    (h : readFromStart outbox config s.active directory = .ok result)
    (hloss : result.lossSignal = none) : Gives outbox config s result := by
  have hrefused : ∀ {code maxObserved}, lossNoCursor outbox s.active code maxObserved ≠ .ok result := by
    intro code maxObserved heq
    have hsignal := lossNoCursor_lossSignal heq
    rw [hloss] at hsignal
    cases hsignal
  have hactive : readSameFile outbox config s.active none = .ok result →
      Gives outbox config s result := readActive_gives rfl (Nat.zero_le _)
  unfold readFromStart at h
  cases hglob : config.rotationGlob with
  | none =>
      rw [hglob] at h
      exact hactive h
  | some glob =>
      rw [hglob] at h
      obtain ⟨outcome, hdiscover, h⟩ := Except.bind_eq_ok_iff.mp h
      split at h
      · exact absurd h hrefused
      · exact hactive h
      · rename_i found _
        have hperm := hfound glob hglob found hdiscover
        obtain ⟨-, h⟩ := Except.passed_refusal hrefused h
        split at h
        · exact absurd h hrefused
        · rename_i contents hcontents
          obtain ⟨rfl, -⟩ := wholeFiles_ok hcontents
          rw [List.map_map] at h
          have hsublist := sublist_of_found hperm (keyLt_insertionSort (nodup_found hperm))
            (List.perm_insertionSort KeyLe found).subset
          exact readChain_gives (hsublist.flatMap _) (flatMap_fileLines _) h

/-- A read across a rotation. -/
theorem recoverRotation_gives {directory : Directory} {prior : OutboxPosition}
    {priorString : List CodePoint} {highWater : Option Nat} {covered : Bytes}
    (hwhole : Whole covered) (hoffset : prior.offset = covered.length)
    (hdigest : prior.contentSha256 = outbox.sha256Hex covered)
    (hrecognized : Recognized outbox s covered)
    (hfound : ∀ glob ∈ config.rotationGlob, ∀ found,
      discoverRotations config.maxFileBytes glob s.active directory = .ok (.ok found) →
        found.Perm s.retained)
    (h : recoverRotation outbox config s.active prior priorString directory highWater = .ok result)
    (hloss : result.lossSignal = none) : Gives outbox config s result := by
  obtain ⟨found, sequence, file, above, ⟨glob, hglob, hdiscover, hcontinues⟩, hread⟩ :=
    recoverRotation_ok outbox config h hloss
  have hperm := hfound glob hglob found hdiscover
  have hmem := List.mem_of_find?_eq_some hcontinues.cursorFile
  -- the cursor's file begins with what the cursor covers
  have hlong := hcontinues.long
  have hconsumed := hcontinues.consumed
  rw [hoffset] at hlong
  rw [hoffset, hdigest] at hconsumed
  have hpresent : file ∈ s.present := List.mem_append_left _
    (List.mem_map.mpr ⟨(sequence, file), hperm.mem_iff.mp hmem, rfl⟩)
  have hbegins := hrecognized file hpresent hlong hconsumed
  have hchain : ((sequence, file) :: above).Sublist (numbered s.base s.rotated) := by
    have habove := hcontinues.sorted
    refine sublist_of_found hperm (.cons (fun f hf => ?_) ?_) fun f hf => ?_
    · rw [← habove, List.mem_insertionSort] at hf
      have hlt : sequence < f.1 := of_decide_eq_true (List.mem_filter.mp hf).2
      exact hlt
    · rw [← habove]
      exact keyLt_insertionSort ((nodup_found hperm).sublist (List.filter_sublist.map _))
    · rcases List.mem_cons.mp hf with rfl | hf
      · exact hmem
      · rw [← habove, List.mem_insertionSort] at hf
        exact (List.mem_filter.mp hf).1
  have hrest : ((locatedIn outbox config (file.content.drop covered.length) covered.length).map
      (lineOf sequence)).Sublist (fileLines outbox config (sequence, file)) :=
    locatedIn_drop_sublist (hbegins.symm ▸ hwhole) hlong
  refine readChain_gives ((hrest.append_right (above.flatMap (fileLines outbox config))).trans
    (hchain.flatMap _)) ?_ hread
  rw [continuedRegions, List.flatMap_cons, flatMap_fileLines, List.map_append, map_entry_lineOf,
    hoffset]

/-- **A read that succeeds gives lines of the stream**, in their order. -/
theorem readOutbox_gives {naming : Nat → String}
    (hnames : ∀ glob ∈ config.rotationGlob, Names glob naming) (hwell : s.WellFormed)
    {cursor : Option SourceCursor} {covered : Bytes}
    (hcursor : ∀ c ∈ cursor, Covers outbox c covered) (hrecognized : Recognized outbox s covered)
    {view : FileView} (hview : ∀ read, readRegularFile config.maxFileBytes view = .ok read →
      read = s.active) {directory : Directory}
    (hlists : ∀ glob ∈ config.rotationGlob, Lists config glob naming directory s)
    {highWater : Option Nat}
    (h : readOutbox outbox config view directory cursor highWater = .ok result)
    (hloss : result.lossSignal = none) : Gives outbox config s result := by
  have hfound : ∀ glob ∈ config.rotationGlob, ∀ found,
      discoverRotations config.maxFileBytes glob s.active directory = .ok (.ok found) →
        found.Perm s.retained := fun glob hglob found hdiscover =>
    (hlists glob hglob).perm (hnames glob hglob) hwell hdiscover
  unfold readOutbox at h
  dsimp only at h
  obtain ⟨-, h⟩ := Except.passed_refusal (fun heq => (by cases heq)) h
  cases cursor with
  | none =>
      obtain ⟨active, hactive, h⟩ := Except.bind_eq_ok_iff.mp h
      obtain rfl := hview active (Except.mapError_eq_ok_iff.mp hactive)
      exact readFromStart_gives hfound (Except.mapError_eq_ok_iff.mp h) hloss
  | some cursor =>
      obtain ⟨prior, htext, hwhole, hoffset, hdigest⟩ := hcursor cursor rfl
      obtain ⟨position, hposition, h⟩ := Except.bind_eq_ok_iff.mp h
      have hdecoded : outboxPositionFromCursor P.runtime P.floats outbox.floatEq cursor =
          .ok prior := by
        obtain ⟨text, hencoded, hdecode⟩ :=
          @decodeOutboxPosition_encode P.runtime P.floats outbox.floatEq prior
        rw [htext] at hencoded
        unfold outboxPositionFromCursor
        rw [Except.ok.inj hencoded]
        exact hdecode
      obtain rfl := Except.ok.inj (hdecoded.symm.trans hposition)
      obtain ⟨active, hactive, h⟩ := Except.bind_eq_ok_iff.mp h
      obtain rfl := hview active (Except.mapError_eq_ok_iff.mp hactive)
      split at h
      · -- the active file has the identity in the cursor
        have h := Except.mapError_eq_ok_iff.mp h
        have hrefused : ∀ {code observedSize observedSha256},
            (.ok (loss code prior cursor.position observedSize observedSha256 none) :
              Except OutboxError (OutboxReadResult P)) ≠ .ok result := by
          intro code observedSize observedSha256 heq
          rw [← Except.ok.inj heq] at hloss
          cases hloss
        obtain ⟨priorString, hencoded, h⟩ := Except.bind_eq_ok_iff.mp h
        obtain rfl := Except.ok.inj (htext.symm.trans hencoded)
        obtain ⟨hlong, h⟩ := Except.passed_refusal hrefused h
        obtain ⟨hsame, h⟩ := Except.passed_refusal hrefused h
        have hle := Nat.not_lt.mp hlong
        have hconsumed := not_not.mp hsame
        have hlong := hle
        rw [hoffset] at hlong
        rw [hoffset, hdigest] at hconsumed
        have hbegins := hrecognized s.active (List.mem_append_right _ List.mem_cons_self) hlong
          hconsumed
        rw [← hoffset] at hbegins
        exact readActive_gives (hbegins.symm ▸ hwhole) hle h
      · exact recoverRotation_gives hwhole hoffset hdigest hrecognized hfound
          (Except.mapError_eq_ok_iff.mp h) hloss

end Read

namespace Histories

section System

variable {P : CanonicalPlatform}

/-- The producer's files, and the durable cursor with the bytes that it covers in its file. -/
structure State where
  stream : Stream
  cursor : Option SourceCursor
  covered : Bytes

inductive Event where
  | append (content : Bytes)
  | rotate (device inode : Nat)
  | delete (sequence : Nat)
  | read (view : FileView) (directory : Directory) (highWater : Option Nat) (advanced : Bool)

/-- What a read leaves behind: its cursor is advanced or is not, and one with a loss signal never is. -/
def State.settle (s : State) (outcome : Except Raised (OutboxReadResult P)) (advanced : Bool) :
    State :=
  match outcome with
  | .error _ => s
  | .ok result =>
      if result.lossSignal.isSome ∨ advanced = false then s
      else
        { s with
          cursor := some ⟨result.nextPositionString⟩
          covered := s.stream.active.content.take result.nextPosition.offset }

theorem State.settle_stream (s : State) (outcome : Except Raised (OutboxReadResult P))
    (advanced : Bool) : (s.settle outcome advanced).stream = s.stream := by
  unfold State.settle
  split
  · rfl
  · split <;> rfl

variable (outbox : OutboxRuntime P) (config : OutboxReaderConfig) (naming : Nat → String)

/-- One step of the producer, or one read. Any rotated file can be deleted at any time, and the
acknowledgement can hold anything. SHA-256 does not take another beginning of a file for what the
cursor covers. -/
inductive Step : State → Event → State → Prop where
  | append (s : State) (content : Bytes) :
      Step s (.append content) { s with stream := s.stream.append content }
  | rotate (s : State) (device inode : Nat) (hwhole : Whole s.stream.active.content)
      (hfresh : ∀ f ∈ s.stream.present, f.identity ≠ (device, inode)) :
      Step s (.rotate device inode) { s with stream := s.stream.rotate device inode }
  | delete (s : State) (n : Nat) (h : n < s.stream.base + s.stream.rotated.length) :
      Step s (.delete n) { s with stream := s.stream.delete n }
  | read (s : State) (view : FileView) (directory : Directory) (highWater : Option Nat)
      (advanced : Bool)
      (hview : ∀ read, readRegularFile config.maxFileBytes view = .ok read →
        read = s.stream.active)
      (hlists : ∀ glob ∈ config.rotationGlob, Lists config glob naming directory s.stream)
      (hrecognized : Recognized outbox s.stream s.covered) :
      Step s (.read view directory highWater advanced)
        (s.settle (readOutbox outbox config view directory s.cursor highWater) advanced)

/-- A producer with some files, none of which was read. -/
def lineSystem : System State Event where
  init s := s.stream.WellFormed ∧ s.cursor = none
  step := Step outbox config naming

/-- A state that the history comes to after another, or that one. -/
def Later (s s' : State) : Prop :=
  Relation.ReflTransGen (fun s s' => ∃ event, Step outbox config naming s event s') s s'

/-- A read in this state that succeeds, whatever becomes of it. -/
def Reads (s : State) (result : OutboxReadResult P) : Prop :=
  ∃ view directory highWater advanced s',
    Step outbox config naming s (.read view directory highWater advanced) s' ∧
      readOutbox outbox config view directory s.cursor highWater = .ok result ∧
      result.lossSignal = none

/-! ## The invariant -/

structure Inv (s : State) : Prop where
  wellFormed : s.stream.WellFormed
  cursor : ∀ c ∈ s.cursor, Covers outbox c s.covered

variable {outbox config naming}

/-- Every step leaves the lines where they are. -/
theorem Step.lines_subset {s s' : State} {event : Event}
    (h : Step outbox config naming s event s') :
    s.stream.lines outbox config ⊆ s'.stream.lines outbox config := by
  cases h with
  | append content => exact ((Extends.refl _).append content).lines_subset
  | rotate device inode => exact ((Extends.refl _).rotate device inode).lines_subset
  | delete n => exact List.Subset.refl _
  | read view directory highWater advanced =>
      rw [State.settle_stream]
      exact List.Subset.refl _

/-- **Every step keeps the cursor after complete lines.** -/
theorem step_inv (hnames : ∀ glob ∈ config.rotationGlob, Names glob naming) {s s' : State}
    {event : Event} (hinv : Inv outbox s) (hstep : Step outbox config naming s event s') :
    Inv outbox s' := by
  cases hstep with
  | append content => exact ⟨hinv.wellFormed.append content, hinv.cursor⟩
  | rotate device inode hwhole hfresh =>
      exact ⟨hinv.wellFormed.rotate hwhole hfresh, hinv.cursor⟩
  | delete n hlt => exact ⟨hinv.wellFormed.delete hlt, hinv.cursor⟩
  | read view directory highWater advanced hview hlists hrecognized =>
      refine ⟨State.settle_stream s _ _ ▸ hinv.wellFormed, ?_⟩
      cases hread : readOutbox outbox config view directory s.cursor highWater with
      | error raised => exact hinv.cursor
      | ok result =>
          unfold State.settle
          dsimp only
          split
          · exact hinv.cursor
          · rename_i hadvanced
            rw [not_or, Option.not_isSome_iff_eq_none] at hadvanced
            have hgives := readOutbox_gives hnames hinv.wellFormed hinv.cursor hrecognized hview
              hlists hread hadvanced.1
            intro c hc
            obtain rfl := Option.some.inj hc
            have hoffset := hgives.position.consumed
            have hle := completeEnd_le s.stream.active.content
            refine ⟨result.nextPosition, hgives.text, ?_, ?_, ?_⟩
            · rw [hoffset]
              exact whole_take_completeEnd _
            · rw [List.length_take, hoffset, Nat.min_eq_left hle]
            · rw [hgives.position.digest, hoffset]

theorem reachable_inv (hnames : ∀ glob ∈ config.rotationGlob, Names glob naming)
    {events : List Event} {s : State} (hrun : Run (lineSystem outbox config naming) events s) :
    Inv outbox s := by
  refine hrun.invariant (I := Inv outbox) ?_ ?_
  · rintro s ⟨hwell, hcursor⟩
    refine ⟨hwell, fun c hc => ?_⟩
    rw [hcursor] at hc
    cases hc
  · intro s event s' hinv hstep
    exact step_inv hnames hinv hstep

theorem Later.lines_subset {s s' : State} (h : Later outbox config naming s s') :
    s.stream.lines outbox config ⊆ s'.stream.lines outbox config := by
  induction h with
  | refl => exact List.Subset.refl _
  | tail _ hstep ih =>
      obtain ⟨event, hstep⟩ := hstep
      exact List.Subset.trans ih hstep.lines_subset

theorem Later.inv (hnames : ∀ glob ∈ config.rotationGlob, Names glob naming) {s s' : State}
    (h : Later outbox config naming s s') (hinv : Inv outbox s) : Inv outbox s' := by
  induction h with
  | refl => exact hinv
  | tail _ hstep ih =>
      obtain ⟨event, hstep⟩ := hstep
      exact step_inv hnames ih hstep

/-- The entries of a read are those of lines of the stream. -/
theorem Reads.attributed (hnames : ∀ glob ∈ config.rotationGlob, Names glob naming) {s : State}
    (hinv : Inv outbox s) {result : OutboxReadResult P}
    (h : Reads outbox config naming s result) :
    ∃ lines, Attributed outbox config s.stream result lines := by
  obtain ⟨view, directory, highWater, advanced, s', hstep, hread, hloss⟩ := h
  cases hstep with
  | read _ _ _ _ hview hlists hrecognized =>
      exact (readOutbox_gives hnames hinv.wellFormed hinv.cursor hrecognized hview hlists hread
        hloss).lines

variable {acceptsDraft : RecordDraftV1 P → Bool} {installationId : String}
  {context context' : CollectorContext}

/-- The record of a line has the id of the line's identity. -/
theorem recordId_of_line {lines : List (PhysicalLine P)}
    {records : List (Domain.RecordEnvelopeV1 P)}
    (h : recordsOf outbox acceptsDraft installationId context (lines.map PhysicalLine.entry) =
      .ok records) {i : Nat} {line : PhysicalLine P} {record : Domain.RecordEnvelopeV1 P}
    (hline : lines[i]? = some line) (hrecord : records[i]? = some record) :
    deriveRecordId P outbox.sha256
      (entryIdentity outbox installationId context line.frame line.offset) =
        .ok record.recordId := by
  have hids := congrArg (fun l => l[i]?) (recordsOf_ok h)
  simp only [List.getElem?_map, hline, hrecord, Option.map_some] at hids
  exact Option.some.inj hids

/-- **Reads give one line one record id, and two lines of a file two ids.** Take two reads of one
history, or one read twice, each in a run of the collector with an instant and a redactor of its own;
the installation, the collector, its target and the redaction version are the same. Each read gives
lines of the stream in their order, one record for each. Where two of these lines are in one file,
their records have one id if they are the same line, and else they have two, unless the hashed
identities collide. -/
theorem record_ids_of_lines (hnames : ∀ glob ∈ config.rotationGlob, Names glob naming)
    {events : List Event} {s s' : State} (hrun : Run (lineSystem outbox config naming) events s)
    (hlater : Later outbox config naming s s') {result result' : OutboxReadResult P}
    (hreads : Reads outbox config naming s result) (hreads' : Reads outbox config naming s' result')
    (hcollector : context'.collector.id = context.collector.id)
    (htarget : context'.target.map (·.id) = context.target.map (·.id))
    (hversion : context'.redactor.version = context.redactor.version)
    {records records' : List (Domain.RecordEnvelopeV1 P)}
    (hrecords : recordsOf outbox acceptsDraft installationId context result.located = .ok records)
    (hrecords' : recordsOf outbox acceptsDraft installationId context' result'.located =
      .ok records') :
    (∃ lines, Attributed outbox config s.stream result lines) ∧
      (∃ lines', Attributed outbox config s'.stream result' lines') ∧
      ∀ lines lines', Attributed outbox config s.stream result lines →
        Attributed outbox config s'.stream result' lines' →
        records.length = lines.length ∧ records'.length = lines'.length ∧
        ∀ (i j : Nat) (line line' : PhysicalLine P) (record record' : Domain.RecordEnvelopeV1 P),
          lines[i]? = some line → lines'[j]? = some line' → records[i]? = some record →
          records'[j]? = some record' → line.file = line'.file →
            (line.offset = line'.offset → record.recordId = record'.recordId) ∧
            (line.offset ≠ line'.offset → record.recordId ≠ record'.recordId ∨
              Collide outbox.sha256
                (entryIdentity outbox installationId context line.frame line.offset)
                (entryIdentity outbox installationId context' line'.frame line'.offset)) := by
  have hinv := reachable_inv hnames hrun
  refine ⟨hreads.attributed hnames hinv, hreads'.attributed hnames (hlater.inv hnames hinv), ?_⟩
  rintro lines lines' ⟨hsublist, hlocated⟩ ⟨hsublist', hlocated'⟩
  rw [hlocated] at hrecords
  rw [hlocated'] at hrecords'
  have hlength := congrArg List.length (recordsOf_ok hrecords)
  have hlength' := congrArg List.length (recordsOf_ok hrecords')
  simp only [List.length_map] at hlength hlength'
  refine ⟨hlength.symm, hlength'.symm, ?_⟩
  intro i j line line' record record' hline hline' hrecord hrecord' hfile
  have hid := recordId_of_line hrecords hline hrecord
  have hid' := recordId_of_line hrecords' hline' hrecord'
  refine ⟨fun hoffset => ?_, fun hne => recordId_ne_of_offset hne hid hid'⟩
  -- the line is still in its file, and no other line is at its offset there
  have hframe := Stream.lines_unique
    (hlater.lines_subset (hsublist.subset (List.mem_of_getElem? hline)))
    (hsublist'.subset (List.mem_of_getElem? hline')) hfile hoffset
  have hidentity : entryIdentity outbox installationId context' line'.frame line'.offset =
      entryIdentity outbox installationId context line.frame line.offset := by
    unfold entryIdentity
    rw [hcollector, htarget, hversion, hframe, hoffset]
  rw [hidentity] at hid'
  exact Except.ok.inj (hid.symm.trans hid')

end System

/-! ## A sample history -/

/-- A line with an attribute. -/
def sampleEntryLine : Bytes :=
  encodeUtf8 ("\x7b\"schema_version\":\"1.0\",\"producer_id\":\"p\"," ++
    "\"occurred_at\":\"1970-01-01T00:00:00.000Z\",\"target\":\"t\",\"kind\":\"k\"," ++
    "\"actionability\":\"observe\",\"data\":\x7b\"note\":\"n\"\x7d\x7d\n").toList

/-- `1970-01-01T00:00:00.000Z`. -/
def sampleEpoch : Stamp := 719162 * dayMillis

def sampleEntryFrame : OutboxFrameV1 samplePlatform where
  producerId := "p"
  occurredAt := sampleEpoch
  target := "t"
  kind := "k"
  actionability := .observe
  evidenceReferences := []
  data := [("note", .str "n")]
  canonical := Except.exists_eq_ok (by decide +kernel)

/-- Surroundings of that line, with a digest of the length. -/
def sampleLengths : OutboxRuntime samplePlatform where
  sha256 content := List.replicate 31 0 ++ [UInt8.ofNat content.length]
  sha256_length _ := rfl
  modelValidateJson payload :=
    if payload = sampleEntryLine.dropLast then some sampleEntryFrame else none
  floatEq _ _ := false

/-- A run of the sample collector, with a redactor that gives this text. -/
def sampleContext (now : Stamp) (redacted : String) : CollectorContext where
  now := now
  collector := collectorDescriptor "outbox"
  target := some ⟨"t", "target", "service", "production"⟩
  redactor := ⟨"r1-e1", fun _ => .ok redacted⟩

def sampleFrameDigest : String := "00000000000000000000000000000000000000000000000000000000000000b2"

def sampleGeneration : String := "0000000000000000000000000000000000000000000000000000000000000011"

/-- The draft of the sample line. -/
def sampleEntryDraft (now : Stamp) (redacted : String) (offset : Nat) :
    RecordDraftV1 samplePlatform where
  recordType := .event
  name := recordName
  occurredAt := sampleEpoch
  observedAt := now
  ingestedAt := now
  expiresAt := now + nominalExpiry
  sourceEventId := none
  sourceEntityId := none
  operationId := "outbox" ++ ":" ++ String.ofList (timestampText now)
  collectorRunId := some ("outbox" ++ ":" ++ String.ofList (timestampText now))
  scope := .target
  source := ⟨"outbox", sourceType, .collector, outboxNamespace, sampleGeneration,
    ⟨observationKind, [("producer", .str "p"),
      ("occurred_at", .str (String.ofList (timestampText sampleEpoch))), ("offset", .int offset),
      ("content", .str sampleFrameDigest)]⟩⟩
  collector := some (collectorDescriptor "outbox")
  target := some ⟨"t", "target", "service", "production"⟩
  severity := .info
  trustLevel := .authenticated
  privacyClass := .internal
  redactionVersion := "r1-e1"
  correlation := ⟨none, none, none, none⟩
  dimensions := []
  data := eventData "k" "observe" [("note", .str (clampDimensionValue redacted))]
  data_conforms := eventData_conforms _ _ (Nat.le_of_ble_eq_true rfl)

theorem frameDigest_sample : frameDigest sampleLengths sampleEntryFrame = sampleFrameDigest := by
  decide +kernel

theorem generation_sample : sourceGenerationDigest sampleLengths = sampleGeneration := by
  decide +kernel

theorem draft_sample {now : Stamp} (hnow : now + nominalExpiry < stampLimit) (redacted : String)
    (offset : Nat) :
    FileOutboxCollector.draft sampleLengths (fun _ => true) (sampleContext now redacted)
      sampleEntryFrame offset = .ok (sampleEntryDraft now redacted offset) := by
  have hattributes : redactAttributes (sampleContext now redacted).redactor.redact
      sampleEntryFrame.data = .ok [("note", .str (clampDimensionValue redacted))] := rfl
  unfold FileOutboxCollector.draft
  rw [hattributes]
  have hfew : [("note", (.str (clampDimensionValue redacted) : Scalar samplePlatform))].length ≤
      maxDimensions := Nat.le_of_ble_eq_true rfl
  have hlimit : ¬ stampLimit ≤ (sampleContext now redacted).now + nominalExpiry :=
    Nat.not_le.mpr hnow
  refine Except.bind_eq_ok_iff.mpr ⟨_, rfl, ?_⟩
  rw [dif_pos hfew, if_neg hlimit]
  simp only [observationCoordinate, frameDigest_sample, generation_sample]
  rfl

theorem redact_sample (now : Stamp) (redacted redacted' : String) (offset : Nat) :
    redactDraft (sampleContext now redacted').redactor (sampleEntryDraft now redacted offset) =
      .ok (sampleEntryDraft now redacted offset) := rfl

/-- The draft of the sample line is finalized, where it is small. -/
theorem finalize_sample {now : Stamp} {redacted : String} {offset : Nat}
    (hoffset : inCanonicalRange offset = true)
    (hidentity : Fits (dump (identityFields samplePlatform)
      ((sampleEntryDraft now redacted offset).identity sampleInstallation)))
    (hdedupe : Fits (dump (dedupeFields samplePlatform)
      (.fromIdentity ((sampleEntryDraft now redacted offset).identity sampleInstallation))))
    (hcontent : Fits (.dict (contentProjection (dumpFields (draftFields samplePlatform)
      (sampleEntryDraft now redacted offset)))))
    (hdraft : Fits (dump (draftFields samplePlatform) (sampleEntryDraft now redacted offset))) :
    ∃ r, finalizeDraft sampleLengths.sha256 (fun _ => true) sampleInstallation
      (sampleContext now redacted).redactor (sampleEntryDraft now redacted offset) = .ok r := by
  have hpartKeys : (["producer", "occurred_at", "offset", "content"].map
      (normalizeString samplePlatform.runtime)).Nodup := by decide +kernel
  have hdataKeys : (["type", "category", "status", "attributes"].map
      (normalizeString samplePlatform.runtime)).Nodup := by decide +kernel
  have hparts : WellFormed samplePlatform.runtime (scalarsValue samplePlatform
      (sampleEntryDraft now redacted offset).source.observation.parts) := by
    refine .dict _ hpartKeys ?_
    simp only [sampleEntryDraft, List.map_cons, List.map_nil, List.forall_mem_cons, Scalar.value]
    exact ⟨.str _, .str _, .int _ hoffset, .str _, List.forall_mem_nil _⟩
  have hdimensions : WellFormed samplePlatform.runtime (scalarsValue samplePlatform
      (sampleEntryDraft now redacted offset).dimensions) :=
    .dict _ .nil fun _ h => absurd h List.not_mem_nil
  have hdata : WellFormed samplePlatform.runtime (sampleEntryDraft now redacted offset).data := by
    have hattributes : WellFormed samplePlatform.runtime (scalarsValue samplePlatform
        [("note", .str (clampDimensionValue redacted))]) :=
      .dict _ (List.nodup_singleton _) fun m hm => List.mem_singleton.mp hm ▸ .str _
    refine .dict _ hdataKeys ?_
    simp only [List.forall_mem_cons]
    exact ⟨.str _, .str _, .str _, hattributes, List.forall_mem_nil _⟩
  obtain ⟨r, hr⟩ := @exists_finalizeRecord_of_room sampleLengths.sha256 sampleLengths.sha256_length
    (sampleEntryDraft now redacted offset) sampleInstallation hparts hdimensions hdata hidentity
    hdedupe hcontent hdraft
  refine ⟨r, Except.bind_eq_ok_iff.mpr ⟨_, redact_sample now redacted redacted offset, ?_⟩⟩
  rw [if_pos rfl]
  exact hr

/-- What a run of the collector makes of sample lines is finalized. -/
theorem records_sample {now : Stamp} {redacted : String} (hnow : now + nominalExpiry < stampLimit)
    {offsets : List Nat} (h : ∀ offset ∈ offsets, ∃ r,
      finalizeDraft sampleLengths.sha256 (fun _ => true) sampleInstallation
        (sampleContext now redacted).redactor (sampleEntryDraft now redacted offset) = .ok r) :
    ∃ records, recordsOf sampleLengths (fun _ => true) sampleInstallation
      (sampleContext now redacted) (offsets.map fun offset => (sampleEntryFrame, offset)) =
        .ok records := by
  have hdrafts : (offsets.map fun offset => (sampleEntryFrame, offset)).mapM
      (fun entry => FileOutboxCollector.draft sampleLengths (fun _ => true)
        (sampleContext now redacted) entry.1 entry.2) =
          .ok (offsets.map (sampleEntryDraft now redacted)) := by
    clear h
    induction offsets with
    | nil => rfl
    | cons offset offsets ih =>
        rw [List.map_cons, List.mapM_cons, draft_sample hnow, ih]
        rfl
  have hrecords : ∃ records, (offsets.map (sampleEntryDraft now redacted)).mapM
      (finalizeDraft sampleLengths.sha256 (fun _ => true) sampleInstallation
        (sampleContext now redacted).redactor) = .ok records := by
    clear hdrafts
    induction offsets with
    | nil => exact ⟨[], rfl⟩
    | cons offset offsets ih =>
        obtain ⟨hfirst, hrest⟩ := List.forall_mem_cons.mp h
        obtain ⟨r, hr⟩ := hfirst
        obtain ⟨rest, hrest⟩ := ih hrest
        refine ⟨r :: rest, ?_⟩
        rw [List.map_cons, List.mapM_cons, hr, hrest]
        rfl
  obtain ⟨records, hrecords⟩ := hrecords
  exact ⟨records, Except.bind_eq_ok_iff.mpr ⟨_, hdrafts, hrecords⟩⟩

/-- The record of the first read. -/
theorem records_active : ∃ records, recordsOf sampleLengths (fun _ => true) sampleInstallation
    (sampleContext sampleEpoch "x") ([0].map fun offset => (sampleEntryFrame, offset)) =
      .ok records := by
  have hidentity : Fits (dump (identityFields samplePlatform)
      ((sampleEntryDraft sampleEpoch "x" 0).identity sampleInstallation)) ∧
      Fits (dump (dedupeFields samplePlatform)
        (.fromIdentity ((sampleEntryDraft sampleEpoch "x" 0).identity sampleInstallation))) := by
    decide +kernel
  have hdraft : Fits (.dict (contentProjection (dumpFields (draftFields samplePlatform)
      (sampleEntryDraft sampleEpoch "x" 0)))) ∧
      Fits (dump (draftFields samplePlatform) (sampleEntryDraft sampleEpoch "x" 0)) := by
    decide +kernel
  exact records_sample (by decide) (List.forall_mem_singleton.mpr
    (finalize_sample (by decide) hidentity.1 hidentity.2 hdraft.1 hdraft.2))

/-- The records of the read a minute later. -/
theorem records_rotated : ∃ records, recordsOf sampleLengths (fun _ => true) sampleInstallation
    (sampleContext (sampleEpoch + 60000) "y")
      ([0, 154].map fun offset => (sampleEntryFrame, offset)) = .ok records := by
  have hzero : Fits (dump (identityFields samplePlatform)
      ((sampleEntryDraft (sampleEpoch + 60000) "y" 0).identity sampleInstallation)) ∧
      Fits (dump (dedupeFields samplePlatform) (.fromIdentity
        ((sampleEntryDraft (sampleEpoch + 60000) "y" 0).identity sampleInstallation))) := by
    decide +kernel
  have hnext : Fits (dump (identityFields samplePlatform)
      ((sampleEntryDraft (sampleEpoch + 60000) "y" 154).identity sampleInstallation)) ∧
      Fits (dump (dedupeFields samplePlatform) (.fromIdentity
        ((sampleEntryDraft (sampleEpoch + 60000) "y" 154).identity sampleInstallation))) := by
    decide +kernel
  have hagain : Fits (.dict (contentProjection (dumpFields (draftFields samplePlatform)
      (sampleEntryDraft (sampleEpoch + 60000) "y" 0)))) ∧
      Fits (dump (draftFields samplePlatform) (sampleEntryDraft (sampleEpoch + 60000) "y" 0)) := by
    decide +kernel
  have hsecond : Fits (.dict (contentProjection (dumpFields (draftFields samplePlatform)
      (sampleEntryDraft (sampleEpoch + 60000) "y" 154)))) ∧
      Fits (dump (draftFields samplePlatform)
        (sampleEntryDraft (sampleEpoch + 60000) "y" 154)) := by
    decide +kernel
  exact records_sample (by decide) (List.forall_mem_cons.mpr
    ⟨finalize_sample (by decide) hzero.1 hzero.2 hagain.1 hagain.2, List.forall_mem_singleton.mpr
      (finalize_sample (by decide) hnext.1 hnext.2 hsecond.1 hsecond.2)⟩)

/-- A frame that is found in the sample's surroundings is that of the sample line. -/
theorem frame_sample {config : OutboxReaderConfig} {content : Bytes} {offset : Nat}
    {entry : OutboxFrameV1 samplePlatform × Nat}
    (h : entry ∈ locatedIn sampleLengths config content offset) : entry.1 = sampleEntryFrame := by
  have hlines : ∀ (lines : List Bytes) (offset : Nat),
      entry ∈ Lines.located (acceptedLine sampleLengths config) offset lines →
        ∃ line, acceptedLine sampleLengths config line = some entry.1 := by
    intro lines
    induction lines with
    | nil => exact fun _ h => absurd h List.not_mem_nil
    | cons line lines ih =>
        intro offset h
        rcases List.mem_append.mp h with h | h
        · obtain ⟨frame, hframe, rfl⟩ := Option.map_eq_some_iff.mp (Option.mem_toList.mp h)
          exact ⟨line, hframe⟩
        · exact ih _ h
  obtain ⟨line, hline⟩ := hlines _ _ h
  unfold acceptedLine parseLine parseOutboxFrameLine sampleLengths at hline
  dsimp only at hline
  split at hline
  · cases hline
  · split at hline
    · cases hline
    · rename_i frame hparsed
      split at hparsed
      · rename_i validated hvalid
        split at hvalid
        · split at hline
          · cases hline
          · rw [← Option.some.inj hline, ← Except.ok.inj hparsed, ← Option.some.inj hvalid]
        · cases hvalid
      · cases hparsed

/-- What was found of a stream are sample lines at the offsets that were given. -/
theorem located_sample {s : Stream} {result : OutboxReadResult samplePlatform}
    {lines : List (PhysicalLine samplePlatform)}
    (h : Attributed sampleLengths sampleConfig s result lines) {offsets : List Nat}
    (hoffsets : result.located.map (·.2) = offsets) :
    result.located = offsets.map fun offset => (sampleEntryFrame, offset) := by
  obtain ⟨hsublist, hlocated⟩ := h
  have hframes : ∀ entry ∈ result.located, (sampleEntryFrame, entry.2) = entry := by
    intro entry hentry
    rw [hlocated] at hentry
    obtain ⟨line, hline, rfl⟩ := List.mem_map.mp hentry
    obtain ⟨i, file, -, -, hmem⟩ := Stream.mem_lines.mp (hsublist.subset hline)
    exact Prod.ext (frame_sample hmem).symm rfl
  rw [← hoffsets, List.map_map]
  exact (List.map_id _).symm.trans (List.map_congr_left fun entry hentry =>
    (hframes entry hentry).symm)

/-- The producer writes the line; then it writes it again, and rotates the file. -/
theorem run_of_lines {line : Bytes} (hwhole : Whole (line ++ line)) :
    Run (lineSystem sampleLengths sampleConfig (rotatedName "outbox.*.jsonl"))
        ([] ++ [.append line]) ⟨⟨0, [], ⟨1, 1, line⟩, []⟩, none, []⟩ ∧
      Later sampleLengths sampleConfig (rotatedName "outbox.*.jsonl")
        ⟨⟨0, [], ⟨1, 1, line⟩, []⟩, none, []⟩
        ⟨⟨0, [⟨1, 1, line ++ line⟩], ⟨1, 2, []⟩, []⟩, none, []⟩ := by
  have hfresh : ∀ f ∈ (⟨0, [], ⟨1, 1, line ++ line⟩, []⟩ : Stream).present,
      f.identity ≠ (1, 2) := by
    intro f hf
    rw [List.mem_singleton.mp hf]
    have hne : ((1, 1) : Nat × Nat) ≠ (1, 2) := by decide
    exact hne
  have hstart : Run (lineSystem sampleLengths sampleConfig (rotatedName "outbox.*.jsonl")) []
      ⟨⟨0, [], ⟨1, 1, []⟩, []⟩, none, []⟩ := .start ⟨Stream.wellFormed_first rfl rfl, rfl⟩
  exact ⟨hstart.snoc (.append _ line), (Relation.ReflTransGen.single ⟨_, .append _ line⟩).tail
    ⟨_, .rotate _ 1 2 hwhole hfresh⟩⟩

def sampleEntryView (content : Bytes) : FileView := .opened ⟨1, 1, content⟩ content.length .complete

/-- The sample file when it is read first. -/
theorem reads_active {line : Bytes} {result : OutboxReadResult samplePlatform}
    (h : readOutbox sampleLengths sampleConfig (sampleEntryView line) [] none none = .ok result)
    (hloss : result.lossSignal = none) :
    Reads sampleLengths sampleConfig (rotatedName "outbox.*.jsonl")
      ⟨⟨0, [], ⟨1, 1, line⟩, []⟩, none, []⟩ result := by
  refine ⟨sampleEntryView line, [], none, false, _, .read _ _ _ _ _ ?_ ?_ ?_, h, hloss⟩
  · exact fun read hread => readRegularFile_opened hread
  · intro glob hglob
    exact ⟨[], [], .nil, .nil, fun _ h => absurd h List.not_mem_nil⟩
  · exact fun f _ _ _ => rfl

/-- The sample file after its rotation, with an empty active one. -/
theorem reads_rotated {content : Bytes} {result : OutboxReadResult samplePlatform}
    (h : readOutbox sampleLengths sampleConfig (.opened ⟨1, 2, []⟩ 0 .complete)
      [("outbox.0.jsonl", sampleEntryView content)] none none = .ok result)
    (hloss : result.lossSignal = none) :
    Reads sampleLengths sampleConfig (rotatedName "outbox.*.jsonl")
      ⟨⟨0, [⟨1, 1, content⟩], ⟨1, 2, []⟩, []⟩, none, []⟩ result := by
  refine ⟨_, _, none, false, _, .read _ _ _ _ _ ?_ ?_ ?_, h, hloss⟩
  · exact fun read hread => readRegularFile_opened hread
  · intro glob hglob
    obtain rfl := Option.some.inj hglob
    have hname : "outbox.0.jsonl" = rotatedName "outbox.*.jsonl" 0 := by decide +kernel
    have hmatches : matchesGlob (globParts "outbox.*.jsonl") "outbox.0.jsonl" = true := by
      decide +kernel
    have hkept : [("outbox.0.jsonl", sampleEntryView content)].filter
        (fun entry => matchesGlob (globParts "outbox.*.jsonl") entry.1) =
          [("outbox.0.jsonl", sampleEntryView content)] := List.filter_cons_of_pos hmatches
    refine ⟨[("outbox.0.jsonl", sampleEntryView content)], [], ?_,
      .cons ⟨hname, fun read hread => readRegularFile_opened hread⟩ .nil,
      fun _ h => absurd h List.not_mem_nil⟩
    rw [hkept]
    exact .refl _
  · exact fun f _ _ _ => rfl

theorem file_active {file : FileRead} {line : PhysicalLine samplePlatform}
    (h : line ∈ Stream.lines sampleLengths sampleConfig ⟨0, [], file, []⟩) : line.file = 0 := by
  obtain ⟨i, f, hi, hn, -⟩ := Stream.mem_lines.mp h
  have hlt := (List.getElem?_eq_some_iff.mp hi).1
  rw [Stream.files, List.nil_append, List.length_singleton] at hlt
  dsimp only at hn
  omega

/-- The new active file has no lines. -/
theorem file_rotated {file : FileRead} {line : PhysicalLine samplePlatform}
    (h : line ∈ Stream.lines sampleLengths sampleConfig ⟨0, [file], ⟨1, 2, []⟩, []⟩) :
    line.file = 0 := by
  obtain ⟨i, f, hi, hn, hentry⟩ := Stream.mem_lines.mp h
  have hlt := (List.getElem?_eq_some_iff.mp hi).1
  rw [Stream.files, List.length_append, List.length_singleton, List.length_singleton] at hlt
  rcases Nat.lt_or_ge i 1 with hzero | hone
  · dsimp only at hn
    omega
  · obtain rfl : i = 1 := by omega
    obtain rfl := Option.some.inj hi
    exact absurd hentry List.not_mem_nil

/-- A read whose offsets were computed. -/
theorem read_of_offsets {outcome : Except Raised (OutboxReadResult samplePlatform)}
    {offsets : List Nat} (h : outcome.toOption.map
      (fun r => (r.lossSignal.isNone, r.located.map (·.2))) = some (true, offsets)) :
    ∃ result, outcome = .ok result ∧ result.lossSignal = none ∧
      result.located.map (·.2) = offsets := by
  cases outcome with
  | error raised => cases h
  | ok result =>
      obtain ⟨hnone, hlocated⟩ := Prod.mk.inj (Option.some.inj h)
      exact ⟨result, rfl, Option.isNone_iff_eq_none.mp hnone, hlocated⟩

/-- The sample line at two offsets is hashed as two contents of two lengths. -/
theorem not_collide_sample (now now' : Stamp) (redacted redacted' : String) :
    ¬ Collide sampleLengths.sha256
      (entryIdentity sampleLengths sampleInstallation (sampleContext now redacted)
        sampleEntryFrame 0)
      (entryIdentity sampleLengths sampleInstallation (sampleContext now' redacted')
        sampleEntryFrame 154) := by
  have hlengths : ((hashedIdentity (entryIdentity sampleLengths sampleInstallation
      (sampleContext sampleEpoch "x") sampleEntryFrame 0)).map List.length,
      (hashedIdentity (entryIdentity sampleLengths sampleInstallation
        (sampleContext sampleEpoch "x") sampleEntryFrame 154)).map List.length) =
        (some 635, some 637) := by decide +kernel
  obtain ⟨hfirst, hsecond⟩ := Prod.mk.inj hlengths
  -- an identity has neither the instant nor what the redactor gives
  have hsame : ∀ (now : Stamp) (redacted : String) (offset : Nat),
      entryIdentity sampleLengths sampleInstallation (sampleContext now redacted) sampleEntryFrame
        offset = entryIdentity sampleLengths sampleInstallation (sampleContext sampleEpoch "x")
          sampleEntryFrame offset := fun _ _ _ => rfl
  rintro ⟨x, y, hx, hy, -, hdigest⟩
  rw [hsame] at hx hy
  rw [hx] at hfirst
  rw [hy] at hsecond
  have hlast := congrArg List.getLast? hdigest
  simp only [sampleLengths, List.getLast?_concat, Option.some.inj hfirst, Option.some.inj hsecond]
    at hlast
  exact absurd hlast (by decide)

/-- The sample line is read, then it is read again behind a rotation together with the same line
written a second time: it has the same record id, and the second line has another. -/
theorem record_ids_of_lines_sample : ∃ (s s' : State)
    (result result' : OutboxReadResult samplePlatform)
    (first again second : Domain.RecordEnvelopeV1 samplePlatform),
    s.stream = ⟨0, [], ⟨1, 1, sampleEntryLine⟩, []⟩ ∧
      s'.stream = ⟨0, [⟨1, 1, sampleEntryLine ++ sampleEntryLine⟩], ⟨1, 2, []⟩, []⟩ ∧
      Reads sampleLengths sampleConfig (rotatedName "outbox.*.jsonl") s result ∧
      Reads sampleLengths sampleConfig (rotatedName "outbox.*.jsonl") s' result' ∧
      recordsOf sampleLengths (fun _ => true) sampleInstallation (sampleContext sampleEpoch "x")
        result.located = .ok [first] ∧
      recordsOf sampleLengths (fun _ => true) sampleInstallation
        (sampleContext (sampleEpoch + 60000) "y") result'.located = .ok [again, second] ∧
      first.recordId = again.recordId ∧ first.recordId ≠ second.recordId := by
  have hwhole : Whole (sampleEntryLine ++ sampleEntryLine) := by
    unfold Whole
    decide +kernel
  obtain ⟨hrun, hlater⟩ := run_of_lines hwhole
  have hactive : (readOutbox sampleLengths sampleConfig (sampleEntryView sampleEntryLine) [] none
      none).toOption.map (fun r => (r.lossSignal.isNone, r.located.map (·.2))) =
        some (true, [0]) := by
    decide +kernel
  have hrotated : (readOutbox sampleLengths sampleConfig (.opened ⟨1, 2, []⟩ 0 .complete)
      [("outbox.0.jsonl", sampleEntryView (sampleEntryLine ++ sampleEntryLine))] none
      none).toOption.map (fun r => (r.lossSignal.isNone, r.located.map (·.2))) =
        some (true, [0, 154]) := by
    decide +kernel
  obtain ⟨result, hread, hloss, hoffsets⟩ := read_of_offsets hactive
  obtain ⟨result', hread', hloss', hoffsets'⟩ := read_of_offsets hrotated
  have hreads := reads_active hread hloss
  have hreads' := reads_rotated hread' hloss'
  have hnames : ∀ glob ∈ sampleConfig.rotationGlob,
      Names glob (rotatedName "outbox.*.jsonl") := by
    intro glob hglob
    obtain rfl := Option.some.inj hglob
    exact names_rotatedName _
  have hinv := reachable_inv hnames hrun
  obtain ⟨lines, hlines⟩ := hreads.attributed hnames hinv
  obtain ⟨lines', hlines'⟩ := hreads'.attributed hnames (hlater.inv hnames hinv)
  have hlocated := located_sample hlines hoffsets
  have hlocated' := located_sample hlines' hoffsets'
  obtain ⟨records, hrecords⟩ := records_active
  obtain ⟨records', hrecords'⟩ := records_rotated
  rw [← hlocated] at hrecords
  rw [← hlocated'] at hrecords'
  obtain ⟨-, -, hids⟩ := record_ids_of_lines hnames hrun hlater hreads hreads' (by rfl) (by rfl)
    (by rfl) hrecords hrecords'
  obtain ⟨hcount, hcount', hids⟩ := hids lines lines' hlines hlines'
  -- one line was read first, and two behind the rotation
  have hentries := hlines.2.symm.trans hlocated
  have hentries' := hlines'.2.symm.trans hlocated'
  have hone := congrArg List.length hentries
  have htwo := congrArg List.length hentries'
  rw [List.length_map, List.length_map] at hone htwo
  rw [hone] at hcount
  rw [htwo] at hcount'
  obtain ⟨line, rfl⟩ := List.length_eq_one_iff.mp hone
  obtain ⟨line', next, rfl⟩ := List.length_eq_two.mp htwo
  obtain ⟨first, rfl⟩ := List.length_eq_one_iff.mp hcount
  obtain ⟨again, second, rfl⟩ := List.length_eq_two.mp hcount'
  have hline := List.cons_eq_cons.mp hentries
  have hline' := List.cons_eq_cons.mp hentries'
  have hnext := List.cons_eq_cons.mp hline'.2
  obtain ⟨hframe, hoffset⟩ := Prod.mk.inj hline.1
  obtain ⟨hframe', hoffset'⟩ := Prod.mk.inj hline'.1
  obtain ⟨hframe'', hoffset''⟩ := Prod.mk.inj hnext.1
  have hfile := file_active (hlines.1.subset List.mem_cons_self)
  have hfile' := file_rotated (hlines'.1.subset List.mem_cons_self)
  have hfile'' := file_rotated (hlines'.1.subset (List.mem_cons_of_mem _ List.mem_cons_self))
  have hsame := (hids 0 0 line line' first again rfl rfl rfl rfl (hfile.trans hfile'.symm)).1
    (hoffset.trans hoffset'.symm)
  have hother := (hids 0 1 line next first second rfl rfl rfl rfl (hfile.trans hfile''.symm)).2
    (by rw [hoffset, hoffset'']; decide)
  rw [hframe, hframe'', hoffset, hoffset''] at hother
  exact ⟨⟨⟨0, [], ⟨1, 1, sampleEntryLine⟩, []⟩, none, []⟩,
    ⟨⟨0, [⟨1, 1, sampleEntryLine ++ sampleEntryLine⟩], ⟨1, 2, []⟩, []⟩, none, []⟩, result, result',
    first, again, second, rfl, rfl, hreads, hreads', hrecords, hrecords', hsame,
    hother.resolve_right (not_collide_sample _ _ _ _)⟩

end Histories

end Milhouse.Outbox
