import Milhouse.Outbox.Stream

/-!
# Milhouse — what a read gives of a stream

A read that opened the active file of a stream gives the frames between the cursor and the last
complete line of that file, whichever of the three reads it is, if the files that it finds are those
that were rotated before.

* `Finds` — what a discovery that finds files finds;
* **`readFromStart_delivers`** — without a cursor, the whole stream;
* **`continues_of_points`** — after a rotation, the files that are found continue the cursor;
* **`readOutbox_delivers`** — in each case, the frames that were not delivered yet, unless the
  discovery gave a loss signal;
* **`readOutbox_tracks`** — which it does not where the directory shows the files of a producer that
  rotated at most once since;
* `Delivers.tracks` — a cursor advanced to the next position stands where the read ended.
-/

namespace Milhouse.Outbox

open Json PyJson Text Sorted

section Read

variable {P : CanonicalPlatform} {outbox : OutboxRuntime P} {config : OutboxReaderConfig}

/-- What a read of a stream gives, after what was delivered of it. -/
structure Delivers (outbox : OutboxRuntime P) (config : OutboxReaderConfig) (s : Stream)
    (delivered : List (OutboxFrameV1 P × Nat)) (result : OutboxReadResult P) : Prop where
  lossSignal : result.lossSignal = none
  located : delivered ++ result.located = s.located outbox config
  stands : PositionOf outbox result.nextPosition s.active (completeEnd s.active.content)
  text : encodeOutboxPosition P.runtime result.nextPosition = .ok result.nextPositionString
  observed : ∀ n ∈ result.maxObservedSequence, n < s.base + s.rotated.length

/-- The frames of a content are those of a complete part of it, and those after that. -/
theorem locatedIn_split {content : Bytes} {start : Nat} (hwhole : Whole (content.take start))
    (hle : start ≤ content.length) :
    locatedIn outbox config (content.take start) 0 ++
        locatedIn outbox config ((content.take (completeEnd content)).drop start) start =
      locatedIn outbox config content 0 := by
  have hstop := le_completeEnd hwhole hle
  have htake : (content.take (completeEnd content)).take start = content.take start := by
    rw [List.take_take, Nat.min_eq_left hstop]
  have hlength : ((content.take (completeEnd content)).take start).length = start := by
    rw [htake, List.length_take, Nat.min_eq_left hle]
  have happend := locatedIn_append outbox config (htake.symm ▸ hwhole)
    ((content.take (completeEnd content)).drop start) 0
  rw [List.take_append_drop, locatedIn_completeEnd, hlength, Nat.zero_add, htake] at happend
  exact happend.symm

/-- A read of the active file from a complete part of it. -/
theorem readActive_delivers {s : Stream} {start : Nat}
    (hwhole : Whole (s.active.content.take start)) (hle : start ≤ s.active.content.length)
    {result : OutboxReadResult P} (h : readActive outbox config s.active start = .ok result) :
    Delivers outbox config s
      (s.locatedBefore outbox config s.rotated.length (s.active.content.take start)) result := by
  have hread := readActive_ok outbox config h
  rw [Nat.max_eq_right (le_completeEnd hwhole hle)] at hread
  refine ⟨hread.lossSignal, ?_, hread.position, hread.text, ?_⟩
  · rw [hread.located, List.flatMap_singleton, Stream.locatedBefore, List.append_assoc,
      locatedIn_split hwhole hle, Stream.located, Stream.files, List.take_left, List.flatMap_append,
      List.flatMap_singleton]
  · rw [hread.maxObserved]
    exact fun n hn => absurd hn (by simp)

/-- The frames of numbered files. -/
theorem flatMap_numbered (first : Nat) (files : List FileRead) :
    ((numbered first files).map fun f => (f.2.content, 0)).flatMap
        (fun r => locatedIn outbox config r.1 r.2) =
      files.flatMap fun f => locatedIn outbox config f.content 0 := by
  conv_rhs => rw [← numbered_values first files]
  rw [List.flatMap_map, List.flatMap_map]

/-- A discovery that finds files finds the rotated ones that are left; without a glob to find them by
nothing was rotated. -/
structure Finds (config : OutboxReaderConfig) (directory : Directory) (s : Stream) : Prop where
  unnamed : config.rotationGlob = none → s.rotated = []
  perm : ∀ glob ∈ config.rotationGlob, ∀ found,
    discoverRotations config.maxFileBytes glob s.active directory = .ok (.ok found) →
      found.Perm s.retained

/-- The read ends with the loss signal of its discovery. -/
def Undiscovered (config : OutboxReaderConfig) (directory : Directory) (active : FileRead)
    (result : OutboxReadResult P) : Prop :=
  result.lossSignal.isSome ∧ ∃ glob ∈ config.rotationGlob, ∃ code,
    discoverRotations config.maxFileBytes glob active directory = .ok (.error code)

theorem lossNoCursor_lossSignal {active : FileRead} {code : String} {maxObserved : Option Nat}
    {result : OutboxReadResult P}
    (h : lossNoCursor outbox active code maxObserved = .ok result) : result.lossSignal.isSome := by
  obtain ⟨synthetic, -, h⟩ := Except.bind_eq_ok_iff.mp h
  obtain ⟨text, -, h⟩ := Except.bind_eq_ok_iff.mp h
  obtain rfl := Except.ok.inj h
  rfl

/-- A read without a cursor that found a run of whole files reads them in their order, then the
active file. -/
theorem readFromStart_found {glob : String} (hglob : config.rotationGlob = some glob)
    {active : FileRead} {directory : Directory} {found : List (Nat × FileRead)}
    (hdiscover : discoverRotations config.maxFileBytes glob active directory = .ok (.ok found))
    {first : Nat} {files : List FileRead} (hperm : found.Perm (numbered first files))
    (hwhole : ∀ f ∈ files, Whole f.content) {result : OutboxReadResult P}
    (h : readFromStart outbox config active directory = .ok result) :
    result.lossSignal = none ∧
      result.located = (files.flatMap fun f => locatedIn outbox config f.content 0) ++
        locatedIn outbox config active.content 0 ∧
      PositionOf outbox result.nextPosition active (completeEnd active.content) ∧
      encodeOutboxPosition P.runtime result.nextPosition = .ok result.nextPositionString ∧
      ∀ n ∈ result.maxObservedSequence, n < first + files.length := by
  unfold readFromStart at h
  rw [hglob] at h
  obtain ⟨outcome, hfound, h⟩ := Except.bind_eq_ok_iff.mp h
  obtain rfl := Except.ok.inj (hdiscover.symm.trans hfound)
  cases found with
  | nil =>
      -- nothing was found, and the active file is all there is
      have hlength := hperm.length_eq
      rw [length_numbered] at hlength
      obtain rfl := List.length_eq_zero_iff.mp hlength.symm
      have hread := readActive_ok outbox config h
      rw [Nat.max_eq_right (Nat.zero_le _)] at hread
      refine ⟨hread.lossSignal, ?_, hread.position, hread.text, ?_⟩
      · rw [hread.located, List.flatMap_singleton, List.drop_zero, locatedIn_completeEnd,
          List.flatMap_nil, List.nil_append]
      · rw [hread.maxObserved]
        exact fun n hn => absurd hn (by simp)
  | cons entry rest =>
      have hne : files ≠ [] := by
        rintro rfl
        exact List.cons_ne_nil _ _ hperm.eq_nil
      have hrun : isRun (((numbered first files).map Prod.fst).headD 0)
          (numbered first files) = true := by
        obtain ⟨f, fs, hfs⟩ := List.exists_cons_of_ne_nil hne
        rw [isRun, numbered_keys, length_numbered, hfs]
        exact decide_eq_true rfl
      have hfiles : ∀ f ∈ numbered first files, Whole f.2.content := by
        rintro ⟨n, f⟩ hf
        obtain ⟨i, hi, -⟩ := mem_numbered.mp hf
        exact hwhole f (List.mem_of_getElem? hi)
      dsimp only at h
      rw [insertionSort_numbered hperm, hrun, Bool.not_true, if_neg Bool.false_ne_true,
        wholeFiles_of hfiles] at h
      have hread := readChain_ok outbox config h
      have hpos : 0 < files.length := List.length_pos_iff.mpr hne
      refine ⟨hread.lossSignal, ?_, hread.position, hread.text, ?_⟩
      · rw [hread.located, List.map_map, List.flatMap_append, List.flatMap_singleton,
          locatedIn_completeEnd]
        exact congrArg (· ++ _) (flatMap_numbered first files)
      · rw [hread.maxObserved]
        intro n hn
        rw [← Option.some.inj hn]
        exact maxSequence_lt (by omega) fun f hf => (numbered_lt (hperm.mem_iff.mp hf)).2

/-- **A read without a cursor gives the whole stream**, where nothing of it was deleted. -/
theorem readFromStart_delivers {s : Stream} (hwhole : ∀ f ∈ s.rotated, Whole f.content)
    (hnone : s.deleted = []) {directory : Directory} (hfinds : Finds config directory s)
    {result : OutboxReadResult P}
    (h : readFromStart outbox config s.active directory = .ok result) :
    Delivers outbox config s [] result ∨ Undiscovered config directory s.active result := by
  cases hglob : config.rotationGlob with
  | none =>
      -- there is no other file than the active one
      left
      unfold readFromStart at h
      rw [hglob] at h
      have hread := @readActive_delivers P outbox config s 0 rfl (Nat.zero_le _) result h
      have hbefore : s.locatedBefore outbox config s.rotated.length
          (s.active.content.take 0) = [] := by
        rw [hfinds.unnamed hglob]
        rfl
      rwa [hbefore] at hread
  | some glob =>
      have hstart := h
      unfold readFromStart at h
      rw [hglob] at h
      obtain ⟨outcome, hdiscover, h⟩ := Except.bind_eq_ok_iff.mp h
      cases outcome with
      | error code =>
          exact Or.inr ⟨lossNoCursor_lossSignal h, glob, hglob, code, hdiscover⟩
      | ok found =>
          have hretained : s.retained = numbered s.base s.rotated := by
            rw [Stream.retained, hnone]
            exact List.filter_eq_self.mpr fun _ _ => by simp
          have hperm := hfinds.perm glob hglob found hdiscover
          rw [hretained] at hperm
          obtain ⟨hloss, hlocated, hposition, htext, hobserved⟩ :=
            readFromStart_found hglob hdiscover hperm hwhole hstart
          refine Or.inl ⟨hloss, ?_, hposition, htext, hobserved⟩
          rw [List.nil_append, hlocated, Stream.located, Stream.files, List.flatMap_append,
            List.flatMap_singleton]

/-- What was rotated before is whole. -/
theorem Extends.whole {old new : Stream} (h : Extends old new) (hwell : new.WellFormed) :
    ∀ f ∈ old.rotated, Whole f.content := by
  intro f hf
  obtain ⟨i, hi⟩ := List.mem_iff_getElem?.mp hf
  have hnew := h.getElem?_old hi
  have hlt := (List.getElem?_eq_some_iff.mp hi).1
  rw [Stream.files, List.getElem?_append_left (hlt.trans_le h.length_le)] at hnew
  exact hwell.whole f (List.mem_of_getElem? hnew)

/-- The file of a cursor that is not the active one was rotated before. -/
theorem PointsInto.rotated {s : Stream} {cursor : SourceCursor} {position : OutboxPosition} {k : Nat}
    {file : FileRead} (h : PointsInto outbox s cursor position k file)
    (hother : s.active.identity ≠ (position.device, position.inode)) : s.rotated[k]? = some file := by
  rcases Nat.eq_or_lt_of_le h.index_le with heq | hlt
  · have hfile := h.file_eq
    rw [heq, Stream.getElem?_active, Option.some.injEq] at hfile
    rw [hfile] at hother
    exact absurd h.stands.identity hother
  · have hfile := h.file_eq
    rwa [Stream.files, List.getElem?_append_left hlt] at hfile

/-- The file of a cursor that has the identity of the active one is the active one. -/
theorem PointsInto.index_active {old new : Stream} (hgrown : Extends old new) (hwell : new.WellFormed)
    (hdeleted : new.deleted = old.deleted) {cursor : SourceCursor} {position : OutboxPosition}
    {k : Nat} {file : FileRead} (h : PointsInto outbox old cursor position k file)
    (hsame : old.active.identity = (position.device, position.inode)) : k = old.rotated.length := by
  have hkept : ∀ n ∈ new.deleted, n < new.base + k := by
    rw [hdeleted, hgrown.base]
    exact h.kept
  obtain ⟨file', hfile', -, -⟩ := h.grown hgrown hkept
  obtain ⟨opened, hopened, hidentity, -⟩ := hgrown.opened
  have hle := h.index_le
  refine hwell.distinct k _ file' opened hfile'.file_eq hopened ?_ ?_ ?_
  · intro hmem
    have hlt := hkept _ hmem
    omega
  · intro hmem
    have hlt := hkept _ hmem
    omega
  · rw [hfile'.stands.identity, hidentity, hsame]

/-- The files that a read finds continue the cursor. -/
theorem continues_of_points {old new : Stream} (hgrown : Extends old new) (hwell : new.WellFormed)
    (hdeleted : new.deleted = old.deleted) {cursor : SourceCursor} {prior : OutboxPosition} {k : Nat}
    {file : FileRead} (hpoints : PointsInto outbox old cursor prior k file)
    (hother : old.active.identity ≠ (prior.device, prior.inode)) {highWater : Option Nat}
    (hhigh : ∀ n ∈ highWater, n < old.base + old.rotated.length) {found : List (Nat × FileRead)}
    (hperm : found.Perm old.retained) :
    Continues outbox found prior highWater (old.base + k) file
      (numbered (old.base + k + 1) (old.rotated.drop (k + 1))) := by
  have hfile := hpoints.rotated hother
  have hk := (List.getElem?_eq_some_iff.mp hfile).1
  have hkept : old.base + k ∉ old.deleted := fun hmem =>
    absurd (hpoints.kept _ hmem) (Nat.lt_irrefl _)
  have hcursor : (old.base + k, file) ∈ found :=
    hperm.mem_iff.mpr (Stream.mem_retained.mpr ⟨⟨k, hfile, rfl⟩, hkept⟩)
  have hwhole := hgrown.whole hwell
  refine ⟨?_, ?_, ?_, ?_, hpoints.long, hpoints.stands.digest.symm,
    hwhole file (List.mem_of_getElem? hfile), ?_⟩
  · -- no other file that is there has the identity of the cursor's
    refine find?_eq_some_of_unique hcursor (decide_eq_true hpoints.stands.identity) ?_
    rintro ⟨n, f⟩ hf hsame
    obtain ⟨⟨i, hi, hn⟩, hleft⟩ := Stream.mem_retained.mp (hperm.mem_iff.mp hf)
    have hidentity : f.identity = file.identity :=
      (of_decide_eq_true hsame).trans hpoints.stands.identity.symm
    have hindex : i = k := hwell.distinct i k f file (hgrown.getElem?_old hi)
      (hgrown.getElem?_old hfile) (by rw [hgrown.base, hdeleted, ← hn]; exact hleft)
      (by rw [hgrown.base, hdeleted]; exact hkept) hidentity
    rw [hindex] at hi hn
    exact Prod.ext hn (Option.some.inj (hi.symm.trans hfile))
  · have habove := hperm.filter fun f => old.base + k < f.1
    rw [Stream.retained_above hpoints.kept] at habove
    exact insertionSort_numbered habove
  · rw [isRun, numbered_keys, length_numbered]
    exact decide_eq_true rfl
  · -- the last rotated file is among those that were found
    have hlast : ∃ f, (old.base + (old.rotated.length - 1), f) ∈ found := by
      obtain ⟨f, hf⟩ := List.getElem?_eq_some_iff.mpr ⟨by omega, rfl⟩ |> fun h =>
        (⟨_, h⟩ : ∃ f, old.rotated[old.rotated.length - 1]? = some f)
      refine ⟨f, hperm.mem_iff.mpr (Stream.mem_retained.mpr ⟨⟨_, hf, rfl⟩, fun hmem => ?_⟩)⟩
      have hlt := hpoints.kept _ hmem
      omega
    obtain ⟨f, hf⟩ := hlast
    have hle := le_maxSequence hf
    cases highWater with
    | none => rfl
    | some high =>
        have hlt := hhigh high rfl
        rw [Option.any_some, decide_eq_false_iff_not]
        dsimp only at hle
        omega
  · rintro ⟨n, f⟩ hf
    obtain ⟨i, hi, -⟩ := mem_numbered.mp hf
    rw [List.getElem?_drop] at hi
    exact hwhole f (List.mem_of_getElem? hi)

/-- The frames of a chain that continues a cursor are those after it. -/
theorem located_continued {s : Stream} {cursor : SourceCursor} {prior : OutboxPosition} {k : Nat}
    {file : FileRead} (hpoints : PointsInto outbox s cursor prior k file)
    (hfile : s.rotated[k]? = some file) :
    s.locatedBefore outbox config k (file.content.take prior.offset) ++
        (continuedRegions prior file (numbered (s.base + k + 1) (s.rotated.drop (k + 1))) ++
          [(s.active.content.take (completeEnd s.active.content), 0)]).flatMap
            (fun r : Bytes × Nat => locatedIn outbox config r.1 r.2) =
      s.located outbox config := by
  have hlt := (List.getElem?_eq_some_iff.mp hfile).1
  have hcontent := locatedIn_append outbox config hpoints.whole (file.content.drop prior.offset) 0
  rw [List.take_append_drop, List.length_take, Nat.min_eq_left hpoints.long, Nat.zero_add] at hcontent
  have hsplit := List.take_append_drop k s.rotated
  rw [List.drop_eq_getElem_cons hlt, (List.getElem?_eq_some_iff.mp hfile).2] at hsplit
  have htake : s.files.take k = s.rotated.take k := by
    rw [Stream.files, List.take_append_of_le_length hlt.le]
  unfold continuedRegions Stream.locatedBefore Stream.located
  rw [htake, List.cons_append, List.flatMap_cons, List.flatMap_append, flatMap_numbered,
    List.flatMap_singleton, locatedIn_completeEnd]
  conv_rhs => rw [Stream.files, ← hsplit]
  rw [List.flatMap_append, List.flatMap_append, List.flatMap_cons, List.flatMap_singleton, hcontent]
  simp only [List.append_assoc]

/-- **A read of the file in which the cursor stands gives what is behind it.** -/
theorem readSameFile_delivers {s : Stream} {cursor : SourceCursor} {prior : OutboxPosition}
    (hpoints : PointsInto outbox s cursor prior s.rotated.length s.active)
    {result : OutboxReadResult P}
    (h : readSameFile outbox config s.active (some prior) = .ok result) :
    Delivers outbox config s
      (s.locatedBefore outbox config s.rotated.length (s.active.content.take prior.offset))
      result := by
  unfold readSameFile at h
  obtain ⟨text, -, hread⟩ := Except.bind_eq_ok_iff.mp h
  rw [if_neg (Nat.not_lt.mpr hpoints.long)] at hread
  dsimp only at hread
  rw [if_neg (not_not.mpr hpoints.stands.digest.symm)] at hread
  exact readActive_delivers hpoints.whole hpoints.long hread

/-- **A read across a rotation gives what is behind the cursor**, where the files that it finds are
those that were rotated before. -/
theorem recoverRotation_delivers {old new : Stream} (hgrown : Extends old new)
    (hwell : new.WellFormed) (hdeleted : new.deleted = old.deleted) {cursor : SourceCursor}
    {prior : OutboxPosition} {k : Nat} {file : FileRead}
    (hpoints : PointsInto outbox old cursor prior k file)
    (hother : old.active.identity ≠ (prior.device, prior.inode)) {highWater : Option Nat}
    (hhigh : ∀ n ∈ highWater, n < old.base + old.rotated.length) {directory : Directory}
    (hfinds : Finds config directory old) {priorString : List CodePoint}
    {result : OutboxReadResult P}
    (h : recoverRotation outbox config old.active prior priorString directory highWater =
      .ok result) :
    Delivers outbox config old (old.locatedBefore outbox config k (file.content.take prior.offset))
        result ∨
      Undiscovered config directory old.active result := by
  have hrotated := hpoints.rotated hother
  cases hglob : config.rotationGlob with
  | none =>
      rw [hfinds.unnamed hglob] at hrotated
      cases hrotated
  | some glob =>
      unfold recoverRotation at h
      rw [hglob] at h
      obtain ⟨outcome, hdiscover, h⟩ := Except.bind_eq_ok_iff.mp h
      cases outcome with
      | error code =>
          obtain rfl := Except.ok.inj h
          exact Or.inr ⟨rfl, glob, hglob, code, hdiscover⟩
      | ok found =>
          left
          have hperm := hfinds.perm glob hglob found hdiscover
          have hcontinues := continues_of_points hgrown hwell hdeleted hpoints hother hhigh hperm
          dsimp only at h
          rw [recoverFound_of outbox config hcontinues] at h
          have hread := readChain_ok outbox config h
          refine ⟨hread.lossSignal, ?_, hread.position, hread.text, ?_⟩
          · rw [hread.located]
            exact located_continued hpoints hrotated
          · rw [hread.maxObserved]
            intro n hn
            rw [← Option.some.inj hn]
            have hk := (List.getElem?_eq_some_iff.mp hrotated).1
            refine maxSequence_lt (by omega) fun f hf => ?_
            obtain ⟨⟨i, hi, hn⟩, -⟩ := Stream.mem_retained.mp (hperm.mem_iff.mp hf)
            have hlt := (List.getElem?_eq_some_iff.mp hi).1
            omega

/-- **A read gives what is between the cursor and the last complete line of the file that it
opened**, unless its discovery gave a loss signal. -/
theorem readOutbox_delivers {old new : Stream} (hgrown : Extends old new) (hwell : new.WellFormed)
    (hdeleted : new.deleted = old.deleted) {cursor : Option SourceCursor}
    {delivered : List (OutboxFrameV1 P × Nat)} (htracks : Tracks outbox config old cursor delivered)
    {highWater : Option Nat} (hhigh : ∀ n ∈ highWater, n < old.base + old.rotated.length)
    {view : FileView}
    (hview : ∀ read, readRegularFile config.maxFileBytes view = .ok read → read = old.active)
    {directory : Directory} (hfinds : Finds config directory old) {result : OutboxReadResult P}
    (h : readOutbox outbox config view directory cursor highWater = .ok result) :
    Delivers outbox config old delivered result ∨
      Undiscovered config directory old.active result := by
  unfold readOutbox at h
  dsimp only at h
  obtain ⟨-, h⟩ := Except.passed_refusal (fun heq => (by cases heq)) h
  cases cursor with
  | none =>
      obtain ⟨hnone, rfl⟩ := htracks
      obtain ⟨active, hactive, h⟩ := Except.bind_eq_ok_iff.mp h
      obtain rfl := hview active (Except.mapError_eq_ok_iff.mp hactive)
      exact readFromStart_delivers (hgrown.whole hwell) hnone hfinds (Except.mapError_eq_ok_iff.mp h)
  | some cursor =>
      obtain ⟨prior, k, file, hpoints, rfl⟩ := htracks
      obtain ⟨position, hposition, h⟩ := Except.bind_eq_ok_iff.mp h
      rw [hpoints.decoded] at hposition
      obtain rfl := Except.ok.inj hposition
      obtain ⟨active, hactive, h⟩ := Except.bind_eq_ok_iff.mp h
      obtain rfl := hview active (Except.mapError_eq_ok_iff.mp hactive)
      split at h
      · -- the cursor stands in the active file
        rename_i hsame
        have hk := hpoints.index_active hgrown hwell hdeleted hsame
        subst hk
        obtain rfl : old.active = file :=
          Option.some.inj (old.getElem?_active.symm.trans hpoints.file_eq)
        exact Or.inl (readSameFile_delivers hpoints (Except.mapError_eq_ok_iff.mp h))
      · rename_i hother
        exact recoverRotation_delivers hgrown hwell hdeleted hpoints hother hhigh hfinds
          (Except.mapError_eq_ok_iff.mp h)

/-- **A read gives what is between the cursor and the last complete line of the file that it
opened**, and no loss signal, where the producer rotated that file at most once since. -/
theorem readOutbox_tracks {glob : String} (hglob : config.rotationGlob = some glob)
    {naming : Nat → String} (hnames : Names glob naming) {old new : Stream}
    (hgrown : Grown old new) (hwell : new.WellFormed) (hdeleted : new.deleted = old.deleted)
    {cursor : Option SourceCursor} {delivered : List (OutboxFrameV1 P × Nat)}
    (htracks : Tracks outbox config old cursor delivered) {highWater : Option Nat}
    (hhigh : ∀ n ∈ highWater, n < old.base + old.rotated.length) {view : FileView}
    (hview : ∀ read, readRegularFile config.maxFileBytes view = .ok read → read = old.active)
    {directory : Directory} (hshows : Shows config glob naming directory new)
    {result : OutboxReadResult P}
    (h : readOutbox outbox config view directory cursor highWater = .ok result) :
    Delivers outbox config old delivered result := by
  have hdiscovers : ∀ outcome,
      discoverRotations config.maxFileBytes glob old.active directory = .ok outcome →
        ∃ found, outcome = .ok found ∧ found.Perm old.retained := fun outcome hdiscover =>
    discoverRotations_shows hnames hgrown hwell hdeleted htracks.kept hshows hdiscover
  have hfinds : Finds config directory old := by
    refine ⟨fun hnone => ?_, fun glob' hglob' found hdiscover => ?_⟩
    · rw [hglob] at hnone
      cases hnone
    · obtain rfl := Option.some.inj (hglob.symm.trans hglob')
      obtain ⟨found', heq, hperm⟩ := hdiscovers _ hdiscover
      rw [Except.ok.inj heq]
      exact hperm
  rcases readOutbox_delivers hgrown.toExtends hwell hdeleted htracks hhigh hview hfinds h with
    hdelivers | ⟨-, glob', hglob', code, hdiscover⟩
  · exact hdelivers
  · obtain rfl := Option.some.inj (hglob.symm.trans hglob')
    obtain ⟨found, heq, -⟩ := hdiscovers _ hdiscover
    cases heq

/-- A cursor that is advanced to the next position of a read stands where the read ended. -/
theorem Delivers.tracks {s : Stream} {delivered : List (OutboxFrameV1 P × Nat)}
    {result : OutboxReadResult P} (h : Delivers outbox config s delivered result)
    (hkept : ∀ n ∈ s.deleted, n < s.base + s.rotated.length) :
    Tracks outbox config s (some ⟨result.nextPositionString⟩) (delivered ++ result.located) := by
  have hconsumed := h.stands.consumed
  have hstands := h.stands
  rw [← hconsumed] at hstands
  have htake : s.active.content.take result.nextPosition.offset =
      s.active.content.take (completeEnd s.active.content) := by rw [hconsumed]
  refine ⟨result.nextPosition, s.rotated.length, s.active,
    ⟨h.text, s.getElem?_active, hstands, ?_, ?_, hkept⟩, ?_⟩
  · rw [hconsumed]
    exact completeEnd_le _
  · rw [htake]
    exact whole_take_completeEnd _
  · rw [h.located, htake, Stream.locatedBefore, locatedIn_completeEnd, Stream.located, Stream.files,
      List.take_left, List.flatMap_append, List.flatMap_singleton]

end Read

end Milhouse.Outbox
