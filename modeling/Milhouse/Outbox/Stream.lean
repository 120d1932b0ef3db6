import Milhouse.Outbox.ReaderOutcome
import Mathlib.Data.List.Perm.Basic

/-!
# Milhouse — the stream of an outbox

A producer appends to its active file and rotates it, so that its files are one stream of lines. A
reader that looks at the active file first and at the directory later still sees a part of that
stream, as long as there was at most one rotation in between.

* `Stream` — the files of a producer, with those it deleted;
* `Extends`, `Grown` — what a producer can make of its files between the two looks of a read;
* `PointsInto` — a cursor that stands in one of the files, after complete lines;
* **`discoverRotations_shows`** — a read discovers the rotated files, without the one it has open.
-/

namespace Milhouse.Outbox

open Json PyJson Text Sorted

/-- The files of a producer: the rotated ones, oldest first, and the active one. The rotated files
have consecutive sequences; some of them were deleted. -/
structure Stream where
  base : Nat
  rotated : List FileRead
  active : FileRead
  deleted : List Nat

namespace Stream

def files (s : Stream) : List FileRead := s.rotated ++ [s.active]

/-- The rotated files that are left, with their sequences. -/
def retained (s : Stream) : List (Nat × FileRead) :=
  (numbered s.base s.rotated).filter fun f => f.1 ∉ s.deleted

/-- A stream of an append-only producer: what was rotated is complete, no two files that are there
have one identity, and only what was rotated was deleted. -/
structure WellFormed (s : Stream) : Prop where
  whole : ∀ f ∈ s.rotated, Whole f.content
  distinct : ∀ i j f g, s.files[i]? = some f → s.files[j]? = some g → s.base + i ∉ s.deleted →
    s.base + j ∉ s.deleted → f.identity = g.identity → i = j
  deleted_lt : ∀ n ∈ s.deleted, n < s.base + s.rotated.length

theorem getElem?_rotated {s : Stream} {i : Nat} {f : FileRead} (h : s.rotated[i]? = some f) :
    s.files[i]? = some f := by
  have hlt := (List.getElem?_eq_some_iff.mp h).1
  rw [files, List.getElem?_append_left hlt, h]

theorem getElem?_active (s : Stream) : s.files[s.rotated.length]? = some s.active := by
  rw [files, List.getElem?_append_right (Nat.le_refl _), Nat.sub_self]
  rfl

end Stream

/-- What a producer made of its files since a read opened the active one: it appended to that file,
rotated it, went on with new ones, and deleted others. -/
structure Extends (old new : Stream) : Prop where
  base : new.base = old.base
  earlier : new.files.take old.rotated.length = old.rotated
  opened : ∃ f, new.files[old.rotated.length]? = some f ∧ f.identity = old.active.identity ∧
    old.active.content <+: f.content

/-- The same with one rotation at most. -/
structure Grown (old new : Stream) : Prop extends Extends old new where
  few : new.rotated.length ≤ old.rotated.length + 1

/-- A stream extends itself. -/
theorem Extends.refl (s : Stream) : Extends s s where
  base := rfl
  earlier := List.take_left
  opened := ⟨s.active, s.getElem?_active, rfl, List.prefix_refl _⟩

theorem Grown.refl (s : Stream) : Grown s s := ⟨.refl s, Nat.le_succ _⟩

/-- A file that was rotated before is the same. -/
theorem Extends.getElem?_old {old new : Stream} (h : Extends old new) {i : Nat} {f : FileRead}
    (hi : old.rotated[i]? = some f) : new.files[i]? = some f := by
  have hlt := (List.getElem?_eq_some_iff.mp hi).1
  rw [← h.earlier, List.getElem?_take_of_lt hlt] at hi
  exact hi

/-- A stream that has grown has no fewer rotations. -/
theorem Extends.length_le {old new : Stream} (h : Extends old new) :
    old.rotated.length ≤ new.rotated.length := by
  obtain ⟨f, hf, -⟩ := h.opened
  have hlt := (List.getElem?_eq_some_iff.mp hf).1
  rw [Stream.files, List.length_append, List.length_singleton] at hlt
  omega

/-! ## What a read finds -/

section Discovery

variable {old new : Stream}

/-- Of the retained files, all but the one that was opened were rotated before. -/
theorem Grown.retained_filter (h : Grown old new) (hwell : new.WellFormed)
    (hdeleted : new.deleted = old.deleted)
    (hkept : ∀ n ∈ old.deleted, n < old.base + old.rotated.length) :
    new.retained.filter (fun f => f.2.identity ≠ old.active.identity) = old.retained := by
  rw [← hdeleted] at hkept
  obtain ⟨opened, hopened, hidentity, -⟩ := h.opened
  have hopenedKept : new.base + old.rotated.length ∉ new.deleted := by
    intro hmem
    have hlt := hkept _ hmem
    rw [h.base] at hlt
    omega
  -- no file that was rotated before has the identity of the opened one
  have hothers : ∀ f ∈ numbered old.base old.rotated, f.1 ∉ new.deleted →
      f.2.identity ≠ old.active.identity := by
    rintro ⟨n, f⟩ hf hn hsame
    obtain ⟨i, hi, rfl⟩ := mem_numbered.mp hf
    have hlt := (List.getElem?_eq_some_iff.mp hi).1
    have heq := hwell.distinct i _ f opened (h.getElem?_old hi) hopened
      (by rw [h.base]; exact hn) hopenedKept (hsame.trans hidentity.symm)
    omega
  have hshape : new.rotated = old.rotated ∨ new.rotated = old.rotated ++ [opened] := by
    have hle := h.length_le
    have hfew := h.few
    have hearlier := h.earlier
    rcases Nat.eq_or_lt_of_le hle with heq | hlt
    · left
      rw [heq, Stream.files, List.take_left] at hearlier
      exact hearlier
    · right
      have hlength : new.rotated.length = old.rotated.length + 1 := by omega
      rw [Stream.files, List.getElem?_append_left (by omega)] at hopened
      rw [Stream.files, List.take_append_of_le_length hle] at hearlier
      have hsplit := List.take_append_getElem (l := new.rotated) (i := old.rotated.length) (by omega)
      have htake : new.rotated.take (old.rotated.length + 1) = new.rotated :=
        List.take_of_length_le (by omega)
      rw [htake, hearlier, (List.getElem?_eq_some_iff.mp hopened).2] at hsplit
      exact hsplit.symm
  have hkeep : ((numbered old.base old.rotated).filter fun f => f.1 ∉ new.deleted).filter
      (fun f => f.2.identity ≠ old.active.identity) =
        (numbered old.base old.rotated).filter fun f => f.1 ∉ new.deleted := by
    refine List.filter_eq_self.mpr fun f hf => ?_
    obtain ⟨hmem, hn⟩ := List.mem_filter.mp hf
    exact decide_eq_true (hothers f hmem (of_decide_eq_true hn))
  unfold Stream.retained
  rw [h.base, ← hdeleted]
  rcases hshape with heq | heq
  · rw [heq]
    exact hkeep
  · rw [heq, numbered_append, List.filter_append, List.filter_append, hkeep]
    -- the opened file is among the rotated ones now, and it is left out
    have hnone : ((numbered (old.base + old.rotated.length) [opened]).filter
        fun f => f.1 ∉ new.deleted).filter (fun f => f.2.identity ≠ old.active.identity) = [] := by
      refine List.filter_eq_nil_iff.mpr fun f hf => ?_
      obtain ⟨hmem, -⟩ := List.mem_filter.mp hf
      obtain rfl := List.mem_singleton.mp hmem
      simpa using hidentity
    rw [hnone, List.append_nil]

/-- A directory that shows the retained files under their names; any of them may fail to be read. -/
def Shows (config : OutboxReaderConfig) (glob : String) (naming : Nat → String)
    (directory : Directory) (s : Stream) : Prop :=
  ∃ listed : Directory,
    (directory.filter fun entry => matchesGlob (globParts glob) entry.1).Perm listed ∧
      List.Forall₂ (fun entry file => entry.1 = naming file.1 ∧
        ∀ read, readRegularFile config.maxFileBytes entry.2 = .ok read → read = file.2)
        listed s.retained

/-- A naming whose names the glob takes apart again. -/
def Names (glob : String) (naming : Nat → String) : Prop :=
  ∀ n, parseSequence (globParts glob) (naming n) = some n

/-- The names of a producer that writes sequences in decimal. -/
def rotatedName (glob : String) (n : Nat) : String :=
  String.ofList ((globParts glob).1 ++ Nat.toDigits 10 n ++ (globParts glob).2)

theorem names_rotatedName (glob : String) : Names glob (rotatedName glob) := by
  intro n
  have hwildcard : wildcard (globParts glob) (rotatedName glob n) = Nat.toDigits 10 n := by
    unfold wildcard rotatedName
    rw [String.toList_ofList, List.append_assoc, List.drop_left, List.length_append,
      List.length_append]
    exact List.take_left' (by omega)
  have hdigits : (Nat.toDigits 10 n).all Char.isDigit = true :=
    List.all_eq_true.mpr fun c hc => isDigit_of_mem_toDigits hc
  have hne : Nat.toDigits 10 n ≠ [] := List.ne_nil_of_length_pos Nat.length_toDigits_pos
  unfold parseSequence
  rw [hwildcard, if_pos ⟨hne, hdigits⟩, Nat.ofDigitChars_ten_toDigits]

/-- A listing shows the retained files under their own sequences. -/
theorem keys_of_shows {glob : String} {naming : Nat → String} (hnames : Names glob naming)
    {config : OutboxReaderConfig} {listed : Directory} {files : List (Nat × FileRead)}
    (h : List.Forall₂ (fun entry file => entry.1 = naming file.1 ∧
      ∀ read, readRegularFile config.maxFileBytes entry.2 = .ok read → read = file.2)
      listed files) :
    listed.map (fun entry => parseSequence (globParts glob) entry.1) =
      files.map fun f => some f.1 := by
  induction h with
  | nil => rfl
  | cons hentry _ ih => rw [List.map_cons, List.map_cons, ih, hentry.1, hnames]

/-- What was read of the listed files are these files. -/
theorem files_of_shows {glob : String} {naming : Nat → String} (hnames : Names glob naming)
    {config : OutboxReaderConfig} {listed : Directory} {files read : List (Nat × FileRead)}
    (h : List.Forall₂ (fun entry file => entry.1 = naming file.1 ∧
      ∀ read, readRegularFile config.maxFileBytes entry.2 = .ok read → read = file.2)
      listed files)
    (hread : List.Forall₂ (fun entry file =>
      parseSequence (globParts glob) entry.1 = some file.1 ∧
        readRegularFile config.maxFileBytes entry.2 = .ok file.2) listed read) :
    read = files := by
  induction h generalizing read with
  | nil => cases hread with | nil => rfl
  | @cons entry file _ _ hentry _ ih =>
      cases hread with
      | @cons _ other _ _ hother hrest =>
          have hkey : other.1 = file.1 := by
            have hparsed := hother.1
            rw [hentry.1, hnames, Option.some.injEq] at hparsed
            exact hparsed.symm
          rw [ih hrest, Prod.ext hkey (hentry.2 _ hother.2)]

/-- No sequence is retained twice. -/
theorem nodup_retained (s : Stream) : (s.retained.map Prod.fst).Nodup :=
  (nodup_numbered s.base s.rotated).sublist (List.filter_sublist.map _)

/-- **A read that opened the active file discovers the files that were rotated before**, and no
signal. -/
theorem discoverRotations_shows {config : OutboxReaderConfig} {glob : String}
    {naming : Nat → String} (hnames : Names glob naming) (h : Grown old new)
    (hwell : new.WellFormed) (hdeleted : new.deleted = old.deleted)
    (hkept : ∀ n ∈ old.deleted, n < old.base + old.rotated.length) {directory : Directory}
    (hshows : Shows config glob naming directory new)
    {outcome : Except String (List (Nat × FileRead))}
    (hdiscover : discoverRotations config.maxFileBytes glob old.active directory = .ok outcome) :
    ∃ found, outcome = .ok found ∧ found.Perm old.retained := by
  obtain ⟨listed, hperm, hlisted⟩ := hshows
  have hsorted := (List.perm_insertionSort KeyLe
    (directory.filter fun entry => matchesGlob (globParts glob) entry.1)).trans hperm
  have hkeys := keys_of_shows hnames hlisted
  have hparsed : ∀ entry ∈ (directory.filter fun entry =>
      matchesGlob (globParts glob) entry.1).insertionSort KeyLe,
      (parseSequence (globParts glob) entry.1).isSome = true := by
    intro entry hentry
    have hmem := List.mem_map_of_mem (f := fun entry : String × FileView =>
      parseSequence (globParts glob) entry.1) (hsorted.mem_iff.mp hentry)
    rw [hkeys] at hmem
    obtain ⟨f, -, hf⟩ := List.mem_map.mp hmem
    rw [← hf]
    rfl
  have hsequences : listed.filterMap (fun entry => parseSequence (globParts glob) entry.1) =
      new.retained.map Prod.fst := by
    have hid := congrArg (List.filterMap id) hkeys
    rw [List.filterMap_map, List.filterMap_map] at hid
    rw [← List.filterMap_eq_map']
    exact hid
  have hnodup : (([] : List (Nat × FileRead)).map Prod.fst ++ ((directory.filter fun entry =>
      matchesGlob (globParts glob) entry.1).insertionSort KeyLe).filterMap
        fun entry => parseSequence (globParts glob) entry.1).Nodup := by
    have hperm' := hsorted.filterMap fun entry => parseSequence (globParts glob) entry.1
    rw [hsequences] at hperm'
    exact hperm'.nodup_iff.mpr (nodup_retained new)
  obtain ⟨read, hread, rfl⟩ := discoverEntries_ok hparsed hnodup hdiscover
  -- the entries were read in the order of their names
  obtain ⟨read', hread', hperm'⟩ := List.perm_comp_forall₂ hsorted.symm hread
  obtain rfl := files_of_shows hnames hlisted hread'
  refine ⟨_, rfl, ?_⟩
  rw [List.nil_append, ← h.retained_filter hwell hdeleted hkept]
  exact (hperm'.filter _).symm

end Discovery

/-! ## Sequences -/

section Sequences

variable {found : List (Nat × FileRead)}

theorem foldl_max_le {l : List Nat} {start n : Nat} (hstart : start ≤ n) (h : ∀ m ∈ l, m ≤ n) :
    l.foldl max start ≤ n := by
  induction l generalizing start with
  | nil => exact hstart
  | cons m rest ih =>
      obtain ⟨hm, hrest⟩ := List.forall_mem_cons.mp h
      exact ih (Nat.max_le.mpr ⟨hstart, hm⟩) hrest

theorem le_foldl_max {l : List Nat} {start : Nat} :
    start ≤ l.foldl max start ∧ ∀ m ∈ l, m ≤ l.foldl max start := by
  induction l generalizing start with
  | nil => exact ⟨Nat.le_refl _, fun _ hm => absurd hm List.not_mem_nil⟩
  | cons n rest ih =>
      obtain ⟨hstart, hrest⟩ := @ih (max start n)
      refine ⟨(Nat.le_max_left _ _).trans hstart, List.forall_mem_cons.mpr ⟨?_, hrest⟩⟩
      exact (Nat.le_max_right _ _).trans hstart

theorem le_maxSequence {f : Nat × FileRead} (h : f ∈ found) : f.1 ≤ maxSequence found :=
  le_foldl_max.2 f.1 (List.mem_map_of_mem h)

/-- The largest sequence is below a bound that all sequences are below. -/
theorem maxSequence_lt {n : Nat} (hpos : 0 < n) (h : ∀ f ∈ found, f.1 < n) :
    maxSequence found < n := by
  have hle : maxSequence found ≤ n - 1 := by
    refine foldl_max_le (Nat.zero_le _) fun m hm => ?_
    obtain ⟨f, hf, rfl⟩ := List.mem_map.mp hm
    have hlt := h f hf
    omega
  omega

theorem Stream.mem_retained {s : Stream} {f : Nat × FileRead} :
    f ∈ s.retained ↔ (∃ i, s.rotated[i]? = some f.2 ∧ f.1 = s.base + i) ∧ f.1 ∉ s.deleted := by
  rw [retained, List.mem_filter, decide_eq_true_eq, ← mem_numbered]

/-- Nothing above the deleted files is missing. -/
theorem Stream.retained_above {s : Stream} {k : Nat} (h : ∀ n ∈ s.deleted, n < s.base + k) :
    s.retained.filter (fun f => s.base + k < f.1) =
      numbered (s.base + k + 1) (s.rotated.drop (k + 1)) := by
  rw [retained, List.filter_filter, ← numbered_above]
  refine List.filter_congr fun f _ => ?_
  rw [Bool.and_eq_left_iff_imp, decide_eq_true_eq, decide_eq_true_eq]
  intro hlt hmem
  have hdeleted := h f.1 hmem
  omega

end Sequences

/-! ## Cursors -/

section Cursors

variable {P : CanonicalPlatform} (outbox : OutboxRuntime P) (config : OutboxReaderConfig)

/-- The accepted frames of a stream, each with the offset of its line in its file. -/
def Stream.located (s : Stream) : List (OutboxFrameV1 P × Nat) :=
  s.files.flatMap fun f => locatedIn outbox config f.content 0

/-- The accepted frames of the first files of a stream, and of a content after these. -/
def Stream.locatedBefore (s : Stream) (k : Nat) (content : Bytes) : List (OutboxFrameV1 P × Nat) :=
  ((s.files.take k).flatMap fun f => locatedIn outbox config f.content 0) ++
    locatedIn outbox config content 0

/-- A cursor that stands in a file, after complete lines; no file from there on was deleted. -/
structure PointsInto (s : Stream) (cursor : SourceCursor) (position : OutboxPosition) (k : Nat)
    (file : FileRead) : Prop where
  text : encodeOutboxPosition P.runtime position = .ok cursor.position
  file_eq : s.files[k]? = some file
  stands : PositionOf outbox position file position.offset
  long : position.offset ≤ file.content.length
  whole : Whole (file.content.take position.offset)
  kept : ∀ n ∈ s.deleted, n < s.base + k

/-- What was delivered is the stream up to the cursor; without one, all of it is still there. -/
def Tracks (s : Stream) : Option SourceCursor → List (OutboxFrameV1 P × Nat) → Prop
  | none, delivered => s.deleted = [] ∧ delivered = []
  | some cursor, delivered => ∃ position k file, PointsInto outbox s cursor position k file ∧
      delivered = s.locatedBefore outbox config k (file.content.take position.offset)

variable {outbox config}

theorem PointsInto.index_le {s : Stream} {cursor : SourceCursor} {position : OutboxPosition}
    {k : Nat} {file : FileRead} (h : PointsInto outbox s cursor position k file) :
    k ≤ s.rotated.length := by
  have hlt := (List.getElem?_eq_some_iff.mp h.file_eq).1
  rw [Stream.files, List.length_append, List.length_singleton] at hlt
  omega

/-- A cursor of a stored position is decoded. -/
theorem PointsInto.decoded {s : Stream} {cursor : SourceCursor} {position : OutboxPosition}
    {k : Nat} {file : FileRead} (h : PointsInto outbox s cursor position k file) :
    outboxPositionFromCursor P.runtime P.floats outbox.floatEq cursor = .ok position := by
  obtain ⟨text, htext, hdecode⟩ := @decodeOutboxPosition_encode P.runtime P.floats outbox.floatEq position
  rw [h.text] at htext
  unfold outboxPositionFromCursor
  rw [Except.ok.inj htext]
  exact hdecode

/-- What was delivered are the first frames of the stream. -/
theorem Tracks.begins {s : Stream} {cursor : Option SourceCursor}
    {delivered : List (OutboxFrameV1 P × Nat)} (h : Tracks outbox config s cursor delivered) :
    delivered <+: s.located outbox config := by
  cases cursor with
  | none =>
      rw [h.2]
      exact List.nil_prefix
  | some cursor =>
      obtain ⟨position, k, file, hpoints, rfl⟩ := h
      -- the frames of the file from the cursor on, and of the files after it
      have hfile := locatedIn_append outbox config hpoints.whole
        (file.content.drop position.offset) 0
      rw [List.take_append_drop] at hfile
      have hlt := (List.getElem?_eq_some_iff.mp hpoints.file_eq).1
      have hsplit := List.take_append_drop k s.files
      rw [List.drop_eq_getElem_cons hlt, (List.getElem?_eq_some_iff.mp hpoints.file_eq).2] at hsplit
      unfold Stream.located Stream.locatedBefore
      conv_rhs => rw [← hsplit]
      rw [List.flatMap_append, List.flatMap_cons, hfile, List.append_assoc]
      exact List.prefix_append_right_inj _ |>.mpr (List.prefix_append _ _)

/-- Nothing from the cursor's file on was deleted. -/
theorem Tracks.kept {s : Stream} {cursor : Option SourceCursor}
    {delivered : List (OutboxFrameV1 P × Nat)} (h : Tracks outbox config s cursor delivered) :
    ∀ n ∈ s.deleted, n < s.base + s.rotated.length := by
  cases cursor with
  | none =>
      rw [h.1]
      exact fun _ hn => absurd hn List.not_mem_nil
  | some cursor =>
      obtain ⟨position, k, file, hpoints, -⟩ := h
      exact fun n hn => (hpoints.kept n hn).trans_le (Nat.add_le_add_left hpoints.index_le _)

/-- A cursor stays where it is while the producer goes on. -/
theorem PointsInto.grown {old new : Stream} (h : Extends old new) {cursor : SourceCursor}
    {position : OutboxPosition} {k : Nat} {file : FileRead}
    (hpoints : PointsInto outbox old cursor position k file)
    (hkept : ∀ n ∈ new.deleted, n < new.base + k) :
    ∃ file', PointsInto outbox new cursor position k file' ∧
      file.content.take position.offset = file'.content.take position.offset ∧
      file'.identity = file.identity := by
  rcases Nat.eq_or_lt_of_le hpoints.index_le with heq | hlt
  · -- the cursor is in the file that was active
    obtain ⟨opened, hopened, hidentity, hbegins⟩ := h.opened
    have hfile := hpoints.file_eq
    rw [heq, Stream.getElem?_active, Option.some.injEq] at hfile
    obtain rfl := hfile
    have htake : old.active.content.take position.offset = opened.content.take position.offset := by
      obtain ⟨more, hmore⟩ := hbegins
      rw [← hmore, List.take_append_of_le_length hpoints.long]
    refine ⟨opened, ⟨hpoints.text, heq ▸ hopened, ⟨?_, rfl, ?_⟩, ?_, ?_, hkept⟩, htake, hidentity⟩
    · rw [hidentity]
      exact hpoints.stands.identity
    · rw [← htake]
      exact hpoints.stands.digest
    · exact hpoints.long.trans hbegins.length_le
    · rw [← htake]
      exact hpoints.whole
  · have hfile := hpoints.file_eq
    rw [Stream.files, List.getElem?_append_left hlt] at hfile
    exact ⟨file, ⟨hpoints.text, h.getElem?_old hfile, hpoints.stands, hpoints.long,
      hpoints.whole, hkept⟩, rfl, rfl⟩

/-- The files before one of the old ones are those before. -/
theorem Extends.take_files {old new : Stream} (h : Extends old new) {k : Nat}
    (hk : k ≤ old.rotated.length) : new.files.take k = old.files.take k := by
  have hearlier := congrArg (List.take k) h.earlier
  rw [List.take_take, Nat.min_eq_left hk] at hearlier
  rw [hearlier, Stream.files, List.take_append_of_le_length hk]

/-- A cursor that tracks a stream tracks what it has grown to. -/
theorem Tracks.grown {old new : Stream} (h : Extends old new) {cursor : Option SourceCursor}
    {delivered : List (OutboxFrameV1 P × Nat)} (htracks : Tracks outbox config old cursor delivered)
    (hdeleted : new.deleted = old.deleted) : Tracks outbox config new cursor delivered := by
  cases cursor with
  | none => exact ⟨hdeleted.trans htracks.1, htracks.2⟩
  | some cursor =>
      obtain ⟨position, k, file, hpoints, rfl⟩ := htracks
      have hkept : ∀ n ∈ new.deleted, n < new.base + k := by
        rw [hdeleted, h.base]
        exact hpoints.kept
      obtain ⟨file', hpoints', htake, -⟩ := hpoints.grown h hkept
      refine ⟨position, k, file', hpoints', ?_⟩
      unfold Stream.locatedBefore
      rw [h.take_files hpoints.index_le, htake]

end Cursors

end Milhouse.Outbox
