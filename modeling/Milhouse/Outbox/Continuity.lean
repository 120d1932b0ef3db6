import Milhouse.Outbox.Delivery

/-!
# Milhouse — reading an outbox neither skips nor repeats

The histories of a producer whose outbox is read from time to time. The producer starts with an empty
active file; it appends bytes, rotates the file when its last line is complete, and deletes rotated
files before the one the durable cursor stands in. A read sees one point of this history, and its
cursor is advanced to the next position or is not.

* `Lists` — a directory in which the glob may also match the name of the active file;
* **`step_inv`** — a step keeps the cursor with what was delivered, and what was emitted with it as
  long as no frames were held back;
* **`reading_continuous`** — so every read that succeeds gives exactly the missing lines.
-/

namespace Milhouse.Outbox

open Json PyJson Text Sorted Transition

/-- A directory of the producer: what the glob matches there are the rotated files that are left,
under their names, and perhaps the active file. -/
def Lists (config : OutboxReaderConfig) (glob : String) (naming : Nat → String)
    (directory : Directory) (s : Stream) : Prop :=
  ∃ listed own : Directory,
    (directory.filter fun entry => matchesGlob (globParts glob) entry.1).Perm (listed ++ own) ∧
      List.Forall₂ (fun entry file => entry.1 = naming file.1 ∧
        ∀ read, readRegularFile config.maxFileBytes entry.2 = .ok read → read = file.2)
        listed s.retained ∧
      ∀ entry ∈ own, ∀ read, readRegularFile config.maxFileBytes entry.2 = .ok read →
        read.identity = s.active.identity

/-- **A discovery in such a directory finds the rotated files that are left.** -/
theorem Lists.perm {config : OutboxReaderConfig} {glob : String} {naming : Nat → String}
    (hnames : Names glob naming) {directory : Directory} {s : Stream} (hwell : s.WellFormed)
    (h : Lists config glob naming directory s) {found : List (Nat × FileRead)}
    (hdiscover : discoverRotations config.maxFileBytes glob s.active directory = .ok (.ok found)) :
    found.Perm s.retained := by
  obtain ⟨listed, own, hperm, hlisted, hown⟩ := h
  obtain ⟨files, hfiles, rfl⟩ := discoverEntries_found hdiscover
  have hsorted := (List.perm_insertionSort KeyLe
    (directory.filter fun entry => matchesGlob (globParts glob) entry.1)).trans hperm
  obtain ⟨files', hfiles', hperm'⟩ := List.perm_comp_forall₂ hsorted.symm hfiles
  -- the files behind the entries: first the rotated ones, then what is the active one
  have hsplit := (List.take_append_drop listed.length files').symm
  have hrotated : files'.take listed.length = s.retained :=
    files_of_shows hnames hlisted (List.forall₂_take_append files' listed own hfiles'.flip).flip
  have hactive : ∀ f ∈ files'.drop listed.length, f.2.identity = s.active.identity := by
    have hdropped := (List.forall₂_drop_append files' listed own hfiles'.flip).flip
    intro f hf
    obtain ⟨i, hi⟩ := List.mem_iff_getElem?.mp hf
    obtain ⟨entry, hentry, -, hread⟩ : ∃ entry, entry ∈ own ∧
        parseSequence (globParts glob) entry.1 = some f.1 ∧
          readRegularFile config.maxFileBytes entry.2 = .ok f.2 := by
      have hlt := (List.getElem?_eq_some_iff.mp hi).1
      have hpair := (List.forall₂_iff_get.mp hdropped).2 i
        ((List.forall₂_iff_get.mp hdropped).1.symm ▸ hlt) hlt
      rw [List.get_eq_getElem, List.get_eq_getElem, (List.getElem?_eq_some_iff.mp hi).2] at hpair
      exact ⟨_, List.getElem_mem _, hpair⟩
    exact hown entry hentry _ hread
  have hkept : s.retained.filter (fun f => f.2.identity ≠ s.active.identity) = s.retained :=
    (Grown.refl s).retained_filter hwell rfl hwell.deleted_lt
  have hnone : (files'.drop listed.length).filter
      (fun f => f.2.identity ≠ s.active.identity) = [] :=
    List.filter_eq_nil_iff.mpr fun f hf => by simpa using hactive f hf
  refine ((hperm'.filter _).symm).trans ?_
  rw [hsplit, List.filter_append, hrotated, hkept, hnone, List.append_nil]

/-- The stream without the unterminated end of its active file. -/
def Stream.complete (s : Stream) : Stream :=
  { s with active :=
      { s.active with content := s.active.content.take (completeEnd s.active.content) } }

/-- An unterminated end has no frames. -/
theorem Stream.located_complete {P : CanonicalPlatform} {outbox : OutboxRuntime P}
    {config : OutboxReaderConfig} (s : Stream) :
    s.complete.located outbox config = s.located outbox config := by
  unfold located files complete
  rw [List.flatMap_append, List.flatMap_append, List.flatMap_singleton, List.flatMap_singleton,
    locatedIn_completeEnd]

namespace Continuity

section System

variable {P : CanonicalPlatform}

/-- The producer's files, the durable cursor and the `last_sequence` of the acknowledgement; the
frames of the reads that succeeded, those of the reads that were advanced, each with its offset, and
whether a read with frames was not advanced. -/
structure State (P : CanonicalPlatform) where
  stream : Stream
  cursor : Option SourceCursor
  highWater : Option Nat
  emitted : List (OutboxFrameV1 P × Nat)
  delivered : List (OutboxFrameV1 P × Nat)
  heldBack : Bool

/-- What becomes of a read that succeeds: the cursor is not advanced, it is, or the acknowledgement
is written too. -/
inductive Fate where
  | held
  | advanced
  | acknowledged
  deriving DecidableEq, Repr

inductive Event where
  | append (content : Bytes)
  | rotate (device inode : Nat)
  | delete (sequence : Nat)
  | read (view : FileView) (directory : Directory) (fate : Fate)

/-- What a read leaves behind. One with a loss signal has not succeeded. -/
def State.settle (s : State P) (outcome : Except Raised (OutboxReadResult P)) (fate : Fate) :
    State P :=
  match outcome with
  | .error _ => s
  | .ok result =>
      if result.lossSignal.isSome then s
      else if fate = .held then
        { s with
          emitted := s.emitted ++ result.located
          heldBack := s.heldBack || !result.newFrames.isEmpty }
      else
        { s with
          cursor := some ⟨result.nextPositionString⟩
          highWater := if fate = .acknowledged then
              foldHighWater s.highWater result.maxObservedSequence
            else s.highWater
          emitted := s.emitted ++ result.located
          delivered := s.delivered ++ result.located }

variable (outbox : OutboxRuntime P) (config : OutboxReaderConfig) (naming : Nat → String)

/-- One step of the producer, or one read. Without a glob there are no sequence names to rotate to. -/
inductive Step : State P → Event → State P → Prop where
  | append (s : State P) (content : Bytes) :
      Step s (.append content) { s with stream := s.stream.append content }
  | rotate (s : State P) (device inode : Nat) (hnamed : config.rotationGlob.isSome)
      (hwhole : Whole s.stream.active.content)
      (hfresh : ∀ f ∈ s.stream.present, f.identity ≠ (device, inode)) :
      Step s (.rotate device inode) { s with stream := s.stream.rotate device inode }
  | delete (s : State P) (n : Nat) (h : Behind outbox s.stream s.cursor n) :
      Step s (.delete n) { s with stream := s.stream.delete n }
  | read (s : State P) (view : FileView) (directory : Directory) (fate : Fate)
      (hview : ∀ read, readRegularFile config.maxFileBytes view = .ok read →
        read = s.stream.active)
      (hlists : ∀ glob ∈ config.rotationGlob, Lists config glob naming directory s.stream) :
      Step s (.read view directory fate)
        (s.settle (readOutbox outbox config view directory s.cursor s.highWater) fate)

/-- A producer that begins with an empty file, of any sequence to come. -/
def readingSystem : System (State P) Event where
  init s := s.stream.rotated = [] ∧ s.stream.active.content = [] ∧ s.stream.deleted = [] ∧
    s.cursor = none ∧ s.highWater = none ∧ s.emitted = [] ∧ s.delivered = [] ∧ s.heldBack = false
  step := Step outbox config naming

/-! ## The invariant -/

structure Inv (s : State P) : Prop where
  wellFormed : s.stream.WellFormed
  tracks : Tracks outbox config s.stream s.cursor s.delivered
  highWater : ∀ n ∈ s.highWater, n < s.stream.base + s.stream.rotated.length
  unnamed : config.rotationGlob = none → s.stream.rotated = []
  emitted : s.heldBack = false → s.emitted = s.delivered

variable {outbox config naming}

/-- What a read gives at any point of the history. -/
theorem Inv.delivers (hnames : ∀ glob ∈ config.rotationGlob, Names glob naming) {s : State P}
    (hinv : Inv outbox config s) {view : FileView}
    (hview : ∀ read, readRegularFile config.maxFileBytes view = .ok read → read = s.stream.active)
    {directory : Directory}
    (hlists : ∀ glob ∈ config.rotationGlob, Lists config glob naming directory s.stream)
    {result : OutboxReadResult P}
    (h : readOutbox outbox config view directory s.cursor s.highWater = .ok result)
    (hloss : result.lossSignal = none) : Delivers outbox config s.stream s.delivered result := by
  have hfinds : Finds config directory s.stream :=
    ⟨hinv.unnamed, fun glob hglob found hdiscover =>
      (hlists glob hglob).perm (hnames glob hglob) hinv.wellFormed hdiscover⟩
  rcases readOutbox_delivers (Extends.refl _) hinv.wellFormed rfl hinv.tracks hinv.highWater hview
    hfinds h with hdelivers | ⟨hsignal, -⟩
  · exact hdelivers
  · rw [hloss] at hsignal
    cases hsignal

/-- What a read that succeeds leaves behind. -/
theorem State.settle_ok {s : State P} {result : OutboxReadResult P}
    (hloss : result.lossSignal = none) (fate : Fate) :
    s.settle (.ok result) fate =
      if fate = .held then
        { s with
          emitted := s.emitted ++ result.located
          heldBack := s.heldBack || !result.newFrames.isEmpty }
      else
        { s with
          cursor := some ⟨result.nextPositionString⟩
          highWater := if fate = .acknowledged then
              foldHighWater s.highWater result.maxObservedSequence
            else s.highWater
          emitted := s.emitted ++ result.located
          delivered := s.delivered ++ result.located } := by
  unfold State.settle
  dsimp only
  rw [hloss]
  rfl

/-- A read that succeeds keeps the invariant, whether its cursor is advanced or not. -/
theorem Inv.settle {s : State P} (hinv : Inv outbox config s) {result : OutboxReadResult P}
    (hloss : result.lossSignal = none)
    (hdelivers : Delivers outbox config s.stream s.delivered result) (fate : Fate) :
    Inv outbox config (s.settle (.ok result) fate) := by
  rw [State.settle_ok hloss]
  split
  · refine ⟨hinv.wellFormed, hinv.tracks, hinv.highWater, hinv.unnamed, fun hheld => ?_⟩
    -- nothing was held back, so the read had no frames
    obtain ⟨hbefore, hempty⟩ := Bool.or_eq_false_iff.mp hheld
    have hnone : result.newFrames = [] := by simpa using hempty
    have hlocated : result.located = [] := by
      unfold OutboxReadResult.located
      rw [hnone, List.zip_nil_left]
    show s.emitted ++ result.located = s.delivered
    rw [hlocated, List.append_nil]
    exact hinv.emitted hbefore
  · refine ⟨hinv.wellFormed, hdelivers.tracks hinv.tracks.kept, ?_, hinv.unnamed, fun hheld => ?_⟩
    · dsimp only
      split
      · exact foldHighWater_lt hinv.highWater hdelivers.observed
      · exact hinv.highWater
    · exact congrArg (· ++ result.located) (hinv.emitted hheld)

/-- **Every step keeps the cursor with what was delivered.** -/
theorem step_inv (hnames : ∀ glob ∈ config.rotationGlob, Names glob naming) {s s' : State P}
    {event : Event} (hinv : Inv outbox config s)
    (hstep : Step outbox config naming s event s') : Inv outbox config s' := by
  cases hstep with
  | append content =>
      exact ⟨hinv.wellFormed.append content,
        hinv.tracks.grown ((Extends.refl _).append content) rfl, hinv.highWater, hinv.unnamed,
        hinv.emitted⟩
  | rotate device inode hnamed hwhole hfresh =>
      refine ⟨hinv.wellFormed.rotate hwhole hfresh,
        hinv.tracks.grown ((Extends.refl _).rotate device inode) rfl, fun n hn => ?_, fun hnone => ?_,
        hinv.emitted⟩
      · have hlt := hinv.highWater n hn
        show n < s.stream.base + (s.stream.rotated ++ [s.stream.active]).length
        rw [List.length_append, List.length_singleton]
        omega
      · rw [hnone] at hnamed
        cases hnamed
  | delete n hbehind =>
      have htracks := hbehind.tracks hinv.wellFormed (Extends.refl _) rfl hinv.tracks
      exact ⟨hinv.wellFormed.delete (htracks.kept n List.mem_cons_self), htracks, hinv.highWater,
        hinv.unnamed, hinv.emitted⟩
  | read view directory fate hview hlists =>
      cases hread : readOutbox outbox config view directory s.cursor s.highWater with
      | error raised => exact hinv
      | ok result =>
          cases hloss : result.lossSignal with
          | some signal =>
              -- a signal is no success, and leaves everything as it is
              unfold State.settle
              dsimp only
              rw [hloss]
              exact hinv
          | none =>
              exact hinv.settle hloss (hinv.delivers hnames hview hlists hread hloss) fate

theorem reachable_inv (hnames : ∀ glob ∈ config.rotationGlob, Names glob naming)
    {events : List Event} {s : State P}
    (hrun : Run (readingSystem outbox config naming) events s) : Inv outbox config s := by
  refine hrun.invariant (fun s hinit => ?_) fun s event s' hinv hstep =>
    step_inv hnames hinv (show Step outbox config naming s event s' from hstep)
  obtain ⟨hrotated, hcontent, hdeleted, hcursor, hhigh, hemitted, hdelivered, hheld⟩ := hinit
  refine ⟨Stream.wellFormed_first hrotated hdeleted, ?_, ?_, fun _ => hrotated,
    fun _ => hemitted.trans hdelivered.symm⟩
  · rw [hcursor, hdelivered]
    exact ⟨hdeleted, rfl⟩
  · rw [hhigh]
    exact fun _ h => absurd h (by simp)

/-- No step takes back what was delivered. -/
theorem Step.delivered {s s' : State P} {event : Event}
    (h : Step outbox config naming s event s') : s.delivered <+: s'.delivered := by
  cases h with
  | append | rotate | delete => exact List.prefix_refl _
  | read view directory fate hview hlists =>
      unfold State.settle
      split
      · exact List.prefix_refl _
      · split
        · exact List.prefix_refl _
        · split
          · exact List.prefix_refl _
          · exact List.prefix_append _ _

/-- **Reading neither skips nor repeats.** After any history, what was delivered is a first part of the
complete valid lines of the stream, in their order, and it only grows. Every read that succeeds then
gives the lines that are missing and no byte behind the last complete one; if its cursor is advanced
all complete lines are delivered, and as long as no frames were held back the reads together emitted
each of them once. -/
theorem reading_continuous (hnames : ∀ glob ∈ config.rotationGlob, Names glob naming)
    {events : List Event} {s : State P}
    (hrun : Run (readingSystem outbox config naming) events s) :
    s.delivered <+: s.stream.complete.located outbox config ∧
      (s.heldBack = false → s.emitted = s.delivered) ∧
      (∀ event s', Step outbox config naming s event s' → s.delivered <+: s'.delivered) ∧
      ∀ view directory fate s' result,
        Step outbox config naming s (.read view directory fate) s' →
        readOutbox outbox config view directory s.cursor s.highWater = .ok result →
        result.lossSignal = none →
          s.delivered ++ result.located = s.stream.complete.located outbox config ∧
          result.nextPosition.offset = completeEnd s.stream.active.content ∧
          (fate ≠ .held → s'.delivered = s.stream.complete.located outbox config) ∧
          (s'.heldBack = false → s'.emitted = s.stream.complete.located outbox config) := by
  have hinv := reachable_inv hnames hrun
  rw [Stream.located_complete]
  refine ⟨hinv.tracks.begins, hinv.emitted, fun event s' hstep => hstep.delivered, ?_⟩
  intro view directory fate s' result hstep hread hloss
  have hinv' := step_inv hnames hinv hstep
  cases hstep with
  | read _ _ _ hview hlists =>
      have hdelivers := hinv.delivers hnames hview hlists hread hloss
      refine ⟨hdelivers.located, hdelivers.stands.consumed, fun hfate => ?_, fun hheld => ?_⟩
      · rw [hread, State.settle_ok hloss, if_neg hfate]
        exact hdelivers.located
      · rw [hread, State.settle_ok hloss] at hheld ⊢
        rw [← hdelivers.located]
        split at hheld
        · rename_i hfate
          rw [if_pos hfate]
          exact congrArg (· ++ result.located) (hinv.emitted (Bool.or_eq_false_iff.mp hheld).1)
        · rename_i hfate
          rw [if_neg hfate]
          exact congrArg (· ++ result.located) (hinv.emitted hheld)

end System

/-! ## A sample run -/

/-- A second file: the sample line again, and the beginning of another. -/
def sampleTorn : FileRead := ⟨1, 2, sampleLine ++ [123]⟩

def sampleTornView : FileView := .opened sampleTorn 135 .complete

theorem sampleTornView_read (read : FileRead)
    (h : readRegularFile sampleConfig.maxFileBytes sampleTornView = .ok read) : read = sampleTorn :=
  @readRegularFile_opened _ 135 sampleTorn read .complete h

/-- The producer writes a line, rotates the file, and writes the line again and a part of another. -/
theorem run_of_line {line : Bytes} (hwhole : Whole line) :
    Run (readingSystem sampleOutbox sampleConfig (rotatedName "outbox.*.jsonl"))
      ([.append line] ++ [.rotate 1 2] ++ [.append line] ++ [.append [123]])
      ⟨⟨0, [⟨1, 1, line⟩], ⟨1, 2, line ++ [123]⟩, []⟩, none, none, [], [], false⟩ := by
  have hstart : Run (readingSystem sampleOutbox sampleConfig (rotatedName "outbox.*.jsonl")) []
      ⟨⟨0, [], ⟨1, 1, []⟩, []⟩, none, none, [], [], false⟩ :=
    .start ⟨rfl, rfl, rfl, rfl, rfl, rfl, rfl, rfl⟩
  have hfresh : ∀ f ∈ (⟨0, [], ⟨1, 1, line⟩, []⟩ : Stream).present, f.identity ≠ (1, 2) := by
    intro f hf
    rw [List.mem_singleton.mp hf]
    show ((1, 1) : Nat × Nat) ≠ (1, 2)
    decide
  exact (((hstart.snoc (.append _ line)).snoc (.rotate _ 1 2 rfl hwhole hfresh)).snoc
    (.append _ line)).snoc (.append _ [123])

/-- A read then gives both lines, and leaves the part to the next one. -/
theorem reading_continuous_sample : ∃ (before after : State samplePlatform)
    (result : OutboxReadResult samplePlatform),
    before.stream = ⟨0, [sampleFirst], sampleTorn, []⟩ ∧
      Step sampleOutbox sampleConfig (rotatedName "outbox.*.jsonl") before
        (.read sampleTornView [("outbox.0.jsonl", sampleView)] .advanced) after ∧
      result.located.map (·.2) = [0, 0] ∧
      before.delivered ++ result.located =
        before.stream.complete.located sampleOutbox sampleConfig ∧
      result.nextPosition.offset = completeEnd sampleTorn.content ∧
      after.delivered = before.stream.complete.located sampleOutbox sampleConfig ∧
      after.emitted = before.stream.complete.located sampleOutbox sampleConfig := by
  have hwhole : Whole sampleLine := by
    unfold Whole
    decide +kernel
  have hlists : ∀ glob ∈ sampleConfig.rotationGlob, Lists sampleConfig glob
      (rotatedName "outbox.*.jsonl") [("outbox.0.jsonl", sampleView)]
      ⟨0, [sampleFirst], sampleTorn, []⟩ := by
    intro glob hglob
    obtain rfl := Option.some.inj hglob
    have hname : "outbox.0.jsonl" = rotatedName "outbox.*.jsonl" 0 := by decide +kernel
    exact ⟨[("outbox.0.jsonl", sampleView)], [], .refl _, .cons ⟨hname, sampleView_read⟩ .nil,
      fun _ h => absurd h List.not_mem_nil⟩
  have hnames : ∀ glob ∈ sampleConfig.rotationGlob,
      Names glob (rotatedName "outbox.*.jsonl") := by
    intro glob hglob
    obtain rfl := Option.some.inj hglob
    exact names_rotatedName _
  have hoffsets : (readOutbox sampleOutbox sampleConfig sampleTornView
      [("outbox.0.jsonl", sampleView)] none none).toOption.map
        (fun r => (r.lossSignal.isNone, r.located.map (·.2))) = some (true, [0, 0]) := by
    decide +kernel
  cases hread : readOutbox sampleOutbox sampleConfig sampleTornView
      [("outbox.0.jsonl", sampleView)] none none with
  | error e =>
      rw [hread] at hoffsets
      cases hoffsets
  | ok result =>
      rw [hread] at hoffsets
      obtain ⟨hnone, hlocated⟩ := Prod.mk.inj (Option.some.inj hoffsets)
      have hloss := Option.isNone_iff_eq_none.mp hnone
      obtain ⟨-, -, -, hreads⟩ := reading_continuous hnames (run_of_line hwhole)
      obtain ⟨hdelivers, hoffset, hadvanced, hemitted⟩ :=
        hreads _ _ .advanced _ result (.read _ _ _ _ sampleTornView_read hlists) hread hloss
      refine ⟨_, _, result, rfl, .read _ _ _ _ sampleTornView_read hlists, hlocated, hdelivers,
        hoffset, hadvanced (by decide), hemitted ?_⟩
      rw [hread, State.settle_ok hloss]
      rfl

end Continuity

end Milhouse.Outbox
