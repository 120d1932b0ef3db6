import Milhouse.Lib.Transition
import Milhouse.Outbox.Producer
import Milhouse.Outbox.ReadStream

/-!
# Milhouse — the outbox delivers every line once

A producer and the collector of its outbox, step by step. The producer appends bytes, rotates its
active file, and deletes rotated files before the one the durable cursor stands in. The collector
opens the active file, and finishes the read with the directory as it is then; it advances its cursor
or does not, and writes its acknowledgement or does not.

* **`step_inv`** — every step keeps the cursor and what was delivered together;
* **`outbox_exactly_once`** — so the frames of the advanced reads are the accepted lines of the
  stream, in order, each once.
-/

namespace Milhouse.Outbox

open Json PyJson Text Sorted Transition

section System

variable {P : CanonicalPlatform}

/-- A read that opened the active file, and the stream as it was then. -/
structure Opened where
  view : FileView
  stream : Stream

/-- The producer's files, the durable cursor, the `last_sequence` of the acknowledgement, the read
under way, and the frames of the reads that were advanced, each with its offset. -/
structure State (P : CanonicalPlatform) where
  stream : Stream
  cursor : Option SourceCursor
  highWater : Option Nat
  opened : Option Opened
  delivered : List (OutboxFrameV1 P × Nat)

/-- What becomes of a read with frames: a failure or a crash before the cursor is advanced, one
before the acknowledgement is written, or none. -/
inductive Fate where
  | dropped
  | advanced
  | acknowledged
  deriving DecidableEq, Repr

inductive Event where
  | append (content : Bytes)
  | rotate (device inode : Nat)
  | delete (sequence : Nat)
  | openActive (view : FileView)
  | finish (directory : Directory) (fate : Fate)

/-- `_fold_high_water`. -/
def foldHighWater : Option Nat → Option Nat → Option Nat
  | prior, none => prior
  | none, some observed => some observed
  | some prior, some observed => some (max prior observed)

/-- What a read leaves behind: only one with frames and without a loss signal is advanced. -/
def State.settle (s : State P) (outcome : Except Raised (OutboxReadResult P)) (fate : Fate) :
    State P :=
  match outcome with
  | .error _ => { s with opened := none }
  | .ok result =>
      if fate = .dropped ∨ result.lossSignal.isSome ∨ result.newFrames = [] then
        { s with opened := none }
      else
        { s with
          cursor := some ⟨result.nextPositionString⟩
          highWater := if fate = .acknowledged then
              foldHighWater s.highWater result.maxObservedSequence
            else s.highWater
          opened := none
          delivered := s.delivered ++ result.located }

/-- A read leaves the files as they are. -/
theorem State.settle_stream (s : State P) (outcome : Except Raised (OutboxReadResult P))
    (fate : Fate) : (s.settle outcome fate).stream = s.stream := by
  cases outcome with
  | error raised => rfl
  | ok result =>
      unfold settle
      dsimp only
      split <;> rfl

variable (outbox : OutboxRuntime P) (config : OutboxReaderConfig) (glob : String)
  (naming : Nat → String)

/-- A rotated file strictly before the one the durable cursor stands in. -/
def Deletable (s : State P) (n : Nat) : Prop := Behind outbox s.stream s.cursor n

/-- One step of the producer or of the collector. -/
inductive Step : State P → Event → State P → Prop where
  | append (s : State P) (content : Bytes) :
      Step s (.append content) { s with stream := s.stream.append content }
  | rotate (s : State P) (device inode : Nat) (hwhole : Whole s.stream.active.content)
      (hfresh : ∀ f ∈ s.stream.present, f.identity ≠ (device, inode))
      (honce : ∀ o ∈ s.opened, o.stream.rotated.length = s.stream.rotated.length) :
      Step s (.rotate device inode) { s with stream := s.stream.rotate device inode }
  | delete (s : State P) (n : Nat) (h : Deletable outbox s n) :
      Step s (.delete n) { s with stream := s.stream.delete n }
  | openActive (s : State P) (view : FileView)
      (hview : ∀ read, readRegularFile config.maxFileBytes view = .ok read →
        read = s.stream.active) :
      Step s (.openActive view) { s with opened := some ⟨view, s.stream⟩ }
  | finish (s : State P) (o : Opened) (directory : Directory) (fate : Fate)
      (hopened : s.opened = some o) (hshows : Shows config glob naming directory s.stream) :
      Step s (.finish directory fate)
        (s.settle (readOutbox outbox config o.view directory s.cursor s.highWater) fate)

/-- A producer with files that were never read. -/
def outboxSystem : System (State P) Event where
  init s := s.stream.WellFormed ∧ s.stream.deleted = [] ∧ s.cursor = none ∧ s.highWater = none ∧
    s.opened = none ∧ s.delivered = []
  step := Step outbox config glob naming

/-! ## The invariant -/

/-- A stream with the deletions of a later one. -/
def Stream.deletedAs (s other : Stream) : Stream := { s with deleted := other.deleted }

/-- A read under way: the stream it opened is a part of the stream, and it tracks the cursor. -/
structure Opening (s : State P) (o : Opened) : Prop where
  grown : Grown (o.stream.deletedAs s.stream) s.stream
  view : ∀ read, readRegularFile config.maxFileBytes o.view = .ok read → read = o.stream.active
  tracks : Tracks outbox config (o.stream.deletedAs s.stream) s.cursor s.delivered
  highWater : ∀ n ∈ s.highWater, n < o.stream.base + o.stream.rotated.length

structure Inv (s : State P) : Prop where
  wellFormed : s.stream.WellFormed
  tracks : Tracks outbox config s.stream s.cursor s.delivered
  highWater : ∀ n ∈ s.highWater, n < s.stream.base + s.stream.rotated.length
  opened : ∀ o ∈ s.opened, Opening outbox config s o

variable {outbox config glob naming}

/-- What a read under way gives, whenever it is finished. -/
theorem Inv.delivers (hglob : config.rotationGlob = some glob) (hnames : Names glob naming)
    {s : State P} (hinv : Inv outbox config s) {o : Opened} (ho : s.opened = some o)
    {directory : Directory} (hshows : Shows config glob naming directory s.stream)
    {result : OutboxReadResult P}
    (h : readOutbox outbox config o.view directory s.cursor s.highWater = .ok result) :
    Delivers outbox config (o.stream.deletedAs s.stream) s.delivered result := by
  have hopening := hinv.opened o ho
  exact readOutbox_tracks hglob hnames hopening.grown hinv.wellFormed rfl hopening.tracks
    hopening.highWater hopening.view hshows h

theorem foldHighWater_lt {prior observed : Option Nat} {bound : Nat} (hprior : ∀ n ∈ prior, n < bound)
    (hobserved : ∀ n ∈ observed, n < bound) : ∀ n ∈ foldHighWater prior observed, n < bound := by
  intro n hn
  cases observed with
  | none =>
      cases prior <;> exact hprior n hn
  | some high =>
      have hhigh := hobserved high rfl
      cases prior with
      | none => exact hobserved n hn
      | some low =>
          have hlow := hprior low rfl
          rw [← Option.some.inj hn]
          omega

/-- What a finished read leaves keeps the invariant, whatever becomes of it. -/
theorem Inv.settle (hglob : config.rotationGlob = some glob) (hnames : Names glob naming)
    {s : State P} (hinv : Inv outbox config s) {o : Opened} (ho : s.opened = some o)
    {directory : Directory} (hshows : Shows config glob naming directory s.stream) (fate : Fate) :
    Inv outbox config
      (s.settle (readOutbox outbox config o.view directory s.cursor s.highWater) fate) := by
  have hidle : Inv outbox config { s with opened := none } :=
    ⟨hinv.wellFormed, hinv.tracks, hinv.highWater, fun _ h => absurd h (by simp)⟩
  cases hread : readOutbox outbox config o.view directory s.cursor s.highWater with
  | error raised => exact hidle
  | ok result =>
      have hdelivers := hinv.delivers hglob hnames ho hshows hread
      have hopening := hinv.opened o ho
      unfold State.settle
      dsimp only
      split
      · exact hidle
      · refine ⟨hinv.wellFormed, ?_, ?_, fun _ h => absurd h (by simp)⟩
        · exact (hdelivers.tracks hopening.tracks.kept).grown hopening.grown.toExtends rfl
        · -- a read observed rotated files only
          have hle := hopening.grown.length_le
          have hbase := hopening.grown.base
          have hobserved : ∀ n ∈ result.maxObservedSequence,
              n < s.stream.base + s.stream.rotated.length := by
            intro n hn
            have hlt := hdelivers.observed n hn
            rw [← hbase] at hlt
            exact hlt.trans_le (Nat.add_le_add_left hle _)
          split
          · exact foldHighWater_lt hinv.highWater hobserved
          · exact hinv.highWater

/-- **Every step keeps the cursor and what was delivered together.** -/
theorem step_inv (hglob : config.rotationGlob = some glob) (hnames : Names glob naming)
    {s s' : State P} {event : Event} (hinv : Inv outbox config s)
    (hstep : Step outbox config glob naming s event s') : Inv outbox config s' := by
  cases hstep with
  | append content =>
      have hgrown := (Grown.refl s.stream).append content
      refine ⟨hinv.wellFormed.append content, hinv.tracks.grown hgrown.toExtends rfl, hinv.highWater, ?_⟩
      intro o ho
      have hopening := hinv.opened o ho
      exact ⟨hopening.grown.append content, hopening.view, hopening.tracks, hopening.highWater⟩
  | rotate device inode hwhole hfresh honce =>
      have hgrown := (Grown.refl s.stream).rotate rfl device inode
      refine ⟨hinv.wellFormed.rotate hwhole hfresh, hinv.tracks.grown hgrown.toExtends rfl, ?_, ?_⟩
      · intro n hn
        have hlt := hinv.highWater n hn
        show n < s.stream.base + (s.stream.rotated ++ [s.stream.active]).length
        rw [List.length_append, List.length_singleton]
        omega
      · intro o ho
        have hopening := hinv.opened o ho
        exact ⟨hopening.grown.rotate (honce o ho) device inode, hopening.view, hopening.tracks,
          hopening.highWater⟩
  | delete n hdeletable =>
      have htracks := hdeletable.tracks hinv.wellFormed (Extends.refl _) rfl hinv.tracks
      refine ⟨hinv.wellFormed.delete (htracks.kept n List.mem_cons_self), htracks, hinv.highWater, ?_⟩
      intro o ho
      have hopening := hinv.opened o ho
      exact ⟨⟨hopening.grown.toExtends.delete n, hopening.grown.few⟩, hopening.view,
        hdeletable.tracks hinv.wellFormed hopening.grown.toExtends rfl hopening.tracks,
        hopening.highWater⟩
  | openActive view hview =>
      refine ⟨hinv.wellFormed, hinv.tracks, hinv.highWater, fun o ho => ?_⟩
      obtain rfl := Option.some.inj ho
      exact ⟨Grown.refl s.stream, hview, hinv.tracks, hinv.highWater⟩
  | finish o directory fate hopened hshows =>
      exact hinv.settle hglob hnames hopened hshows fate

theorem reachable_inv (hglob : config.rotationGlob = some glob) (hnames : Names glob naming)
    {events : List Event} {s : State P}
    (hrun : Run (outboxSystem outbox config glob naming) events s) : Inv outbox config s := by
  refine hrun.invariant (fun s hinit => ?_) fun s event s' hinv hstep =>
    step_inv hglob hnames hinv (show Step outbox config glob naming s event s' from hstep)
  obtain ⟨hwell, hdeleted, hcursor, hhigh, hopened, hdelivered⟩ := hinit
  refine ⟨hwell, ?_, ?_, ?_⟩
  · rw [hcursor, hdelivered]
    exact ⟨hdeleted, rfl⟩
  · rw [hhigh]
    exact fun _ h => absurd h (by simp)
  · rw [hopened]
    exact fun _ h => absurd h (by simp)

/-- **The outbox delivers every accepted line once and in order**: after any run of a compliant
producer and its collector, what was delivered is a first part of the stream, and a read that is
under way ends, if it succeeds, without a loss signal and with the frames that are missing up to the
last line that was complete when it opened the active file. -/
theorem outbox_exactly_once (hglob : config.rotationGlob = some glob) (hnames : Names glob naming)
    {events : List Event} {s : State P}
    (hrun : Run (outboxSystem outbox config glob naming) events s) :
    s.delivered <+: s.stream.located outbox config ∧
      ∀ o directory result, s.opened = some o → Shows config glob naming directory s.stream →
        readOutbox outbox config o.view directory s.cursor s.highWater = .ok result →
          result.lossSignal = none ∧
            s.delivered ++ result.located = o.stream.located outbox config := by
  have hinv := reachable_inv hglob hnames hrun
  refine ⟨hinv.tracks.begins, fun o directory result ho hshows hread => ?_⟩
  have hdelivers := hinv.delivers hglob hnames ho hshows hread
  exact ⟨hdelivers.lossSignal, hdelivers.located⟩

end System

/-! ## A sample run

A producer with one line in its first file, which it rotates while the line is read. -/

def sampleLine : Bytes :=
  encodeUtf8 ("\x7b\"schema_version\":\"1.0\",\"producer_id\":\"p\"," ++
    "\"occurred_at\":\"1970-01-01T00:00:00.000Z\",\"target\":\"t\",\"kind\":\"k\"," ++
    "\"actionability\":\"observe\"\x7d\n").toList

def sampleOutboxFrame : OutboxFrameV1 samplePlatform where
  producerId := "p"
  occurredAt := 0
  target := "t"
  kind := "k"
  actionability := .observe
  evidenceReferences := []
  data := []
  canonical := Except.exists_eq_ok (by decide +kernel)

def sampleEmptyDigest : Bytes :=
  [227, 176, 196, 66, 152, 252, 28, 20, 154, 251, 244, 200, 153, 111, 185, 36, 39, 174, 65, 228, 100,
    155, 147, 76, 164, 149, 153, 27, 120, 82, 184, 85]

def sampleLineDigest : Bytes :=
  [153, 67, 58, 139, 67, 148, 10, 154, 103, 157, 233, 201, 113, 29, 193, 251, 178, 66, 32, 119, 21,
    179, 50, 230, 227, 241, 234, 58, 14, 138, 68, 212]

/-- The surroundings of the sample line. -/
def sampleOutbox : OutboxRuntime samplePlatform where
  sha256 content := if content = [] then sampleEmptyDigest else sampleLineDigest
  sha256_length content := by split <;> rfl
  modelValidateJson payload := if payload = sampleLine.dropLast then some sampleOutboxFrame else none
  floatEq _ _ := false

def sampleConfig : OutboxReaderConfig where
  maxLineBytes := 65536
  maxFileBytes := 104857600
  rotationGlob := some "outbox.*.jsonl"
  producerAllowlist := []
  valid := by decide +kernel

/-- The first file of the sample producer. -/
def sampleFirst : FileRead := ⟨1, 1, sampleLine⟩

def sampleView : FileView := .opened sampleFirst 134 .complete

theorem sampleView_read (read : FileRead)
    (h : readRegularFile sampleConfig.maxFileBytes sampleView = .ok read) : read = sampleFirst :=
  @readRegularFile_opened _ 134 sampleFirst read .complete h

/-- The sample producer before its first rotation. -/
def sampleStream : Stream := ⟨0, [], sampleFirst, []⟩

theorem whole_sampleStream : Whole sampleStream.active.content := by
  unfold Whole
  decide +kernel

/-- The collector opened the file before it was rotated: its read ends with the one line, and leaves a
first part of the stream. -/
theorem outbox_exactly_once_sample : ∃ (before after : State samplePlatform)
    (result : OutboxReadResult samplePlatform),
    before.opened = some ⟨sampleView, sampleStream⟩ ∧ before.stream = sampleStream.rotate 1 2 ∧
      readOutbox sampleOutbox sampleConfig sampleView [("outbox.0.jsonl", sampleView)]
        before.cursor before.highWater = .ok result ∧
      result.located.map (·.2) = [0] ∧
      (result.lossSignal = none ∧
        before.delivered ++ result.located = sampleStream.located sampleOutbox sampleConfig) ∧
      after.stream.rotated = [sampleFirst] ∧
      after.delivered <+: after.stream.located sampleOutbox sampleConfig := by
  have hstart : Run (outboxSystem sampleOutbox sampleConfig "outbox.*.jsonl"
      (rotatedName "outbox.*.jsonl")) [] ⟨sampleStream, none, none, none, []⟩ :=
    .start ⟨Stream.wellFormed_first rfl rfl, rfl, rfl, rfl, rfl, rfl⟩
  have hopened := hstart.snoc (.openActive _ sampleView sampleView_read)
  have hfresh : ∀ f ∈ sampleStream.present, f.identity ≠ (1, 2) := by
    intro f hf
    rw [List.mem_singleton.mp hf]
    show ((1, 1) : Nat × Nat) ≠ (1, 2)
    decide
  have hrotated := hopened.snoc (.rotate _ 1 2 whole_sampleStream hfresh
    fun o ho => by rw [← Option.some.inj ho])
  have hname : "outbox.0.jsonl" = rotatedName "outbox.*.jsonl" 0 := by decide +kernel
  have hshows : Shows sampleConfig "outbox.*.jsonl" (rotatedName "outbox.*.jsonl")
      [("outbox.0.jsonl", sampleView)] (sampleStream.rotate 1 2) :=
    ⟨[("outbox.0.jsonl", sampleView)], .refl _,
      .cons ⟨hname, sampleView_read⟩ .nil⟩
  have hrun := hrotated.snoc (.finish _ _ _ .acknowledged rfl hshows)
  have hoffsets : (readOutbox sampleOutbox sampleConfig sampleView
      [("outbox.0.jsonl", sampleView)] none none).toOption.map (fun r => r.located.map (·.2)) =
        some [0] := by
    decide +kernel
  cases hread : readOutbox sampleOutbox sampleConfig sampleView
      [("outbox.0.jsonl", sampleView)] none none with
  | error e =>
      rw [hread] at hoffsets
      cases hoffsets
  | ok result =>
      rw [hread] at hoffsets
      have hends := (outbox_exactly_once rfl (names_rotatedName _) hrotated).2 _ _ result rfl hshows
        hread
      exact ⟨⟨sampleStream.rotate 1 2, none, none, some ⟨sampleView, sampleStream⟩, []⟩, _, result,
        rfl, rfl, hread, Option.some.inj hoffsets, hends,
        congrArg Stream.rotated (State.settle_stream ..),
        (outbox_exactly_once rfl (names_rotatedName _) hrun).1⟩

end Milhouse.Outbox
