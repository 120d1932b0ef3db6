import Milhouse.Logs.Closed

/-!
# Milhouse — reading, closing and reading back a log segment

The programs of retention over a directory. Read-only operations are told from the others once: they
leave the directory as it is, and answer what it holds or fail.

* **`readClosedSegment_ok_iff`** — what the read of a rotation gives, whatever fails in it, is the
  closed segment that the directory holds under that name, and it is given where nothing fails;
* `outcome_readActiveState` — the active segment as retention reads it;
* **`outcome_closeAndRotateActive`** — closing it leaves it under its rotated name, with its trailer;
* **`readClosedSegment_retired`** — and it is read back there if it fits, and refused if it does not.
-/

namespace Milhouse

open Interaction

namespace StructuredLogs

variable {rt : LogRuntime} {d : LogDir}

/-! ## Operations that only read -/

/-- The operations that change nothing. -/
def LogOp.reads : LogOp → Prop
  | .liveDirectory | .scan | .openFile .. | .statName .. | .fstat .. | .read .. | .sync | .close => True
  | _ => False

/-- **A reading operation** answers what the directory holds, or fails. -/
theorem perform_reads {o : LogOp} {c : LogFault} {r : o.Resp} {d' : LogDir} (ho : LogOp.reads o)
    (h : logHandler.perform d o c = some (r, d')) :
    d' = d ∧ (r = (d.answer o).1 ∨ r = o.failure) := by
  have hkept : (d.answer o).2 = d := by
    cases o
    all_goals first | rfl | exact ho.elim
  cases c with
  | ok =>
      have hr : d.answer o = (r, d') := Option.some.inj h
      rw [hr] at hkept ⊢
      exact ⟨hkept, .inl rfl⟩
  | fail =>
      have hr := Option.some.inj h
      exact ⟨(congrArg Prod.snd hr).symm, .inr (congrArg Prod.fst hr).symm⟩
  | short count =>
      cases o
      all_goals first | exact ho.elim | cases h

/-- A program that holds in a directory it only reads, whatever fails. -/
abbrev Reads {α : Type} (p : LogProg α) (Q : α → Prop) (d : LogDir) : Prop :=
  p.Tracks logHandler (· = ·) (· = ·) (fun r _ _ => ∀ a, r = .ok a → Q a) d d

/-- A reading operation may answer or fail, and the directory is the same either way. -/
theorem Reads.op {α : Type} {o : LogOp} {k : o.Resp → LogProg α} {Q : α → Prop}
    (ho : LogOp.reads o) (hok : Reads (k (d.answer o).1) Q d) (hfail : Reads (k o.failure) Q d) :
    Reads (.op o k) Q d := by
  intro c r d' hperform
  obtain ⟨rfl, rfl | rfl⟩ := perform_reads ho hperform
  · exact ⟨d', rfl, rfl, hok⟩
  · exact ⟨d', rfl, rfl, hfail⟩

theorem Reads.done {α : Type} {Q : α → Prop} {a : α} (h : Q a) : Reads (LogProg.done a) Q d :=
  fun _ heq => Except.ok.inj heq ▸ h

/-- A program that raises has given nothing, so it meets every postcondition. -/
theorem Reads.error {α : Type} {Q : α → Prop} {e : LogRaised} :
    Reads (.ret (.error e) : LogProg α) Q d := by
  rintro a heq
  cases heq

/-- A check that fails raises; behind it the checked condition holds. -/
theorem Reads.check {α : Type} {Q : α → Prop} {ok : Bool} {e : LoggingError} {p : LogProg α}
    (h : ok = true → Reads p Q d) : Reads (LogProg.check ok e p) Q d := by
  unfold LogProg.check
  split
  · rename_i hok
    exact h hok
  · exact Reads.error

/-- Reading programs in sequence: the second starts in the directory the first has read. -/
theorem Reads.andThen {α β : Type} {Q : α → Prop} {M : β → Prop} {p : LogProg α}
    {f : α → LogProg β} (h : Reads p Q d) (hf : ∀ a, Q a → Reads (f a) M d) :
    Reads (p.andThen f) M d := by
  -- the directory is the same all along
  have hframed := h.frame (F := (· = d)) (fun _ _ ha hab => hab ▸ ha) rfl
  refine Prog.Tracks.andThen hframed rfl (fun e m s _ _ a heq => by cases heq) ?_
  rintro a m s rfl ⟨hQ, rfl⟩
  exact hf a (hQ a rfl)

/-- Renaming an error changes nothing of what a program gives. -/
theorem Reads.normalize {α : Type} {Q : α → Prop} {e : LoggingError} {p : LogProg α}
    (h : Reads p Q d) : Reads (LogProg.normalize e p) Q d := by
  have hframed := h.frame (F := (· = d)) (fun _ _ ha hab => hab ▸ ha) rfl
  refine Prog.Tracks.seq hframed rfl ?_
  rintro r m s rfl ⟨hQ, rfl⟩
  cases r with
  | ok a => exact Reads.done (hQ a rfl)
  | error raised =>
      cases raised with
      | logging error => exact Reads.error
      | uncoded => exact Reads.error

theorem Reads.lift {α : Type} {Q : α → Prop} {result : Except LoggingError α}
    (h : ∀ a, result = .ok a → Q a) : Reads (LogProg.lift result) Q d := by
  cases result with
  | ok a => exact Reads.done (h a rfl)
  | error e => exact Reads.error

/-! ## Reading a rotation -/

theorem requirePrivateFile_reads (inode : Nat) :
    Reads (requirePrivateFile inode) (fun _ => d.links inode = 1) d := by
  refine Reads.op trivial ?_ Reads.error
  exact Reads.check fun hlinks => Reads.done (of_decide_eq_true hlinks)

/-- A bounded read gives the bytes of the file, and they are within the bound. -/
theorem readBounded_reads (inode bound : Nat) (code : String) :
    Reads (readBounded inode bound code)
      (fun content => content = d.bytes inode ∧ content.length ≤ bound) d := by
  refine Reads.op trivial ?_ Reads.error
  show Reads (if bound < (d.bytes inode).length then _ else _) _ d
  split
  · exact Reads.error
  · rename_i hbound
    exact Reads.op trivial (Reads.done ⟨rfl, Nat.le_of_not_lt hbound⟩) Reads.error

/-- The closed segment that a directory holds under a rotated name: a file with no other name and
within the bound of a segment, which is a header, event lines and a trailer that certifies them, all
under the sequence of the name. -/
structure Holds (rt : LogRuntime) (d : LogDir) (sequence : Nat) (read : ClosedRead) : Prop where
  named : d.rotated.lookup sequence = some read.identity.1
  links : d.links read.identity.1 = 1
  size : read.identity.2 = (d.bytes read.identity.1).length
  bounded : (d.bytes read.identity.1).length ≤ maxSegmentBytes
  header : read.header.sequence = sequence
  trailer : read.trailer.sequence = sequence
  closed : ∃ events, (∀ line ∈ events, IsEventLine rt line) ∧
    read.trailer.certifies rt read.header events ∧
      d.bytes read.identity.1 = certifiedBytes rt read.header events ++ trailerLine rt read.trailer

/-- **Whatever fails in the read of a rotation**, what it gives is what the directory holds. -/
theorem readClosedSegment_reads (sequence : Nat) :
    Reads (readClosedSegment rt sequence) (Holds rt d sequence) d := by
  refine Reads.op trivial ?_ Reads.error
  have hopened : (d.answer (.openFile (.rotated sequence))).1 =
      openedOf (d.rotated.lookup sequence) := rfl
  rw [hopened]
  cases hname : d.rotated.lookup sequence with
  | none => exact Reads.error
  | some inode =>
      refine (requirePrivateFile_reads inode).andThen fun _ hlinks => ?_
      refine (readBounded_reads inode _ _).normalize.andThen fun content hcontent => ?_
      obtain ⟨rfl, hbound⟩ := hcontent
      refine Reads.op trivial ?_ Reads.error
      refine Reads.op trivial ?_ Reads.error
      refine Reads.check fun _ => ?_
      refine Reads.andThen (Reads.lift fun _ => id) fun read hread => ?_
      obtain ⟨hheader, htrailer, hclosed⟩ := closed_of_checkClosed hread
      exact Reads.done ⟨hname, hlinks, rfl, hbound, hheader, htrailer, hclosed⟩

/-! ## Where nothing fails -/

/-- The directory, where it lets every operation succeed. -/
def faultless (d : LogDir) (o : logSignature.Op) : logSignature.Resp o × LogDir := d.answer o

/-- What a program gives and leaves where nothing fails. -/
def outcome {α : Type} (p : LogProg α) (d : LogDir) : Except LogRaised α × LogDir :=
  p.eval faultless d

theorem outcome_op {α : Type} {o : LogOp} {k : o.Resp → LogProg α} :
    outcome (.op o k) d = outcome (k (d.answer o).1) (d.answer o).2 := rfl

theorem outcome_andThen_ok {α β : Type} {p : LogProg α} {f : α → LogProg β} {a : α} {t : LogDir}
    (h : outcome p d = (.ok a, t)) : outcome (p.andThen f) d = outcome (f a) t :=
  Prog.eval_andThen_ok h

theorem outcome_andThen_error {α β : Type} {p : LogProg α} {f : α → LogProg β} {e : LogRaised}
    {t : LogDir} (h : outcome p d = (.error e, t)) : outcome (p.andThen f) d = (.error e, t) :=
  Prog.eval_andThen_error h

/-- Nothing fails in some run of a program. -/
theorem exists_play_outcome {α : Type} (p : LogProg α) (d : LogDir) :
    ∃ tape, p.play logHandler d tape = some (.ret (outcome p d).1, (outcome p d).2) := by
  have hfaultless : ∀ d o, logHandler.perform d o .ok = some (faultless d o) := fun _ _ => rfl
  obtain ⟨n, hn⟩ := Prog.exists_play_eval hfaultless p d
  exact ⟨_, hn⟩

/-- A run of a program that only reads leaves the directory, and what it gives is as it should be. -/
theorem Reads.play {α : Type} {p : LogProg α} {Q : α → Prop} {tape : List LogFault} {a : α}
    {d' : LogDir} (h : Reads p Q d)
    (hplay : p.play logHandler d tape = some (.ret (.ok a), d')) : d' = d ∧ Q a := by
  have hframed := h.frame (F := (· = d)) (fun _ _ ha hab => hab ▸ ha) rfl
  obtain ⟨m, -, rfl, hQ⟩ := hframed.play rfl hplay
  obtain ⟨hQ, hm⟩ := hQ _ rfl
  exact ⟨hm, hQ a rfl⟩

theorem Reads.outcome_ok {α : Type} {p : LogProg α} {Q : α → Prop} {a : α} (h : Reads p Q d)
    (hok : (outcome p d).1 = .ok a) : (outcome p d).2 = d ∧ Q a := by
  obtain ⟨tape, hplay⟩ := exists_play_outcome p d
  rw [hok] at hplay
  exact h.play hplay

/-- Where no bare exception is raised there is no error to rename. -/
theorem outcome_normalize {α : Type} {p : LogProg α} {e : LoggingError}
    (h : (outcome p d).1 ≠ .error .uncoded) : outcome (LogProg.normalize e p) d = outcome p d := by
  refine (Prog.eval_bind p _).trans ?_
  have heval : p.eval faultless d = outcome p d := rfl
  rw [heval]
  generalize outcome p d = result at h ⊢
  obtain ⟨result, t⟩ := result
  cases result with
  | ok a => rfl
  | error raised =>
      cases raised with
      | logging error => rfl
      | uncoded => exact absurd rfl h

theorem outcome_requirePrivateFile {inode : Nat} (h : d.links inode = 1) :
    outcome (requirePrivateFile inode) d = (.ok (), d) := by
  show outcome (LogProg.check (decide (d.links inode = 1)) badFile (LogProg.done ())) d = _
  rw [decide_eq_true h]
  rfl

/-- Where nothing fails a file is read, or refused for its size alone. -/
theorem outcome_readBounded (inode bound : Nat) (code : String) :
    outcome (readBounded inode bound code) d =
      if bound < (d.bytes inode).length then
        (.error (.logging ⟨code, "a log segment exceeds its byte bound"⟩), d)
      else (.ok (d.bytes inode), d) := by
  show outcome (if bound < (d.bytes inode).length then _ else _) d = _
  split
  · rfl
  · rfl

theorem outcome_readBounded_normalize (inode bound : Nat) (code : String) (e : LoggingError) :
    outcome (LogProg.normalize e (readBounded inode bound code)) d =
      if bound < (d.bytes inode).length then
        (.error (.logging ⟨code, "a log segment exceeds its byte bound"⟩), d)
      else (.ok (d.bytes inode), d) := by
  rw [outcome_normalize, outcome_readBounded]
  rw [outcome_readBounded]
  split
  · exact fun heq => by cases heq
  · exact fun heq => by cases heq

/-- The read of a rotation, once its file is open and its own. -/
theorem outcome_readClosedSegment {sequence inode : Nat}
    (hnamed : d.rotated.lookup sequence = some inode) (hlinks : d.links inode = 1) :
    outcome (readClosedSegment rt sequence) d =
      if maxSegmentBytes < (d.bytes inode).length then
        (.error (.logging (retentionFail "a log segment exceeds its byte bound")), d)
      else (match checkClosed rt (d.bytes inode) sequence with
        | .ok read => .ok ⟨read.1, read.2, (inode, (d.bytes inode).length)⟩
        | .error e => .error (.logging e), d) := by
  have hopened : (d.answer (.openFile (.rotated sequence))).1 = Opened.found inode := by
    show openedOf (d.rotated.lookup sequence) = _
    rw [hnamed]
    rfl
  have hread := @outcome_readBounded_normalize d inode maxSegmentBytes "MH_LOG_RETENTION"
    (retentionFail "a closed segment could not be read")
  unfold readClosedSegment
  refine outcome_op.trans ?_
  rw [hopened]
  show outcome ((requirePrivateFile inode).andThen _) d = _
  rw [outcome_andThen_ok (outcome_requirePrivateFile hlinks)]
  by_cases hbound : maxSegmentBytes < (d.bytes inode).length
  · rw [if_pos hbound] at hread ⊢
    exact outcome_andThen_error hread
  · rw [if_neg hbound] at hread ⊢
    rw [outcome_andThen_ok hread]
    -- the identity is taken, the file is closed, and its bytes are checked
    show outcome ((LogProg.lift (checkClosed rt (d.bytes inode) sequence)).andThen _) d = _
    cases checkClosed rt (d.bytes inode) sequence with
    | ok read => rfl
    | error e => rfl

/-- **Retention reads the closed segments and nothing else**: whatever fails in the read of a
rotation, what it gives is the closed segment that the directory holds under that name, and where
nothing fails it gives it. -/
theorem readClosedSegment_ok_iff {sequence : Nat} {read : ClosedRead} :
    (outcome (readClosedSegment rt sequence) d = (.ok read, d) ↔ Holds rt d sequence read) ∧
      ∀ tape d', (readClosedSegment rt sequence).play logHandler d tape =
        some (.ret (.ok read), d') → d' = d ∧ Holds rt d sequence read := by
  refine ⟨⟨fun h => ?_, fun h => ?_⟩, fun tape d' hplay => (readClosedSegment_reads sequence).play hplay⟩
  · exact ((readClosedSegment_reads sequence).outcome_ok (congrArg Prod.fst h)).2
  · obtain ⟨events, hevents, hcertifies, hbytes⟩ := h.closed
    have hchecked := checkClosed_of_closed h.header h.trailer hevents hcertifies
    rw [outcome_readClosedSegment h.named h.links, if_neg (Nat.not_lt.mpr h.bounded), hbytes,
      hchecked, ← hbytes, ← h.size]

/-! ## Reading the active segment -/

/-- A staging name that was not found is free. -/
theorem stagingPresent_reads :
    Reads stagingPresent (fun present => present = false → d.staging = none) d := by
  refine Reads.op trivial ?_ Reads.error
  have hstat : (d.answer (.statName .staging)).1 = openedOf d.staging := rfl
  rw [hstat]
  cases d.staging with
  | none => exact Reads.done fun _ => rfl
  | some inode => exact Reads.done fun h => by cases h

/-- The rotations that were listed are those of the directory. -/
theorem listRotated_reads :
    Reads listRotated (fun rotated => rotated = d.rotated.map Prod.fst) d := by
  refine Reads.op trivial ?_ Reads.error
  show Reads (if maxRotations < (d.rotated.map Prod.fst).length then _ else _) _ d
  split
  · exact Reads.error
  · exact Reads.done rfl

/-- The link count and the bytes that were read are those of the file. -/
theorem readActive_reads (inode : Nat) :
    Reads (readActive inode) (fun read => read = (d.links inode, d.bytes inode)) d := by
  have hexamined : Reads (examineActiveEnvelope inode)
      (fun info => info = (d.links inode, (d.bytes inode).length)) d := by
    refine Reads.op trivial ?_ Reads.error
    exact Reads.check fun _ => Reads.done rfl
  refine hexamined.andThen fun info hinfo => ?_
  refine (readBounded_reads inode _ _).normalize.andThen fun content hcontent => ?_
  refine Reads.op trivial (Reads.check fun _ => Reads.done ?_) (Reads.check fun _ => Reads.done ?_)
  all_goals rw [hinfo, hcontent.1]

/-- The active segment of a directory: the file that has the current name and no other, with a header
above every rotation, and event lines. -/
structure Active (rt : LogRuntime) (d : LogDir) (state : ActiveState) : Prop where
  named : d.current = some state.inode
  unstaged : d.staging = none
  own : state.links = 1
  links : d.links state.inode = 1
  above : highest (d.rotated.map Prod.fst) < state.content.header.sequence
  bytes : d.bytes state.inode = certifiedBytes rt state.content.header state.content.events
  events : ∀ line ∈ state.content.events, IsEventLine rt line

/-- **The active segment that retention has read.** -/
theorem readActiveState_reads :
    Reads (readActiveState rt) (fun read => ∀ state, read = some state → Active rt d state) d := by
  refine stagingPresent_reads.andThen fun present hpresent => ?_
  cases present with
  | true => exact Reads.error
  | false =>
      refine listRotated_reads.andThen fun rotated hrotated => ?_
      refine Reads.op trivial ?_ Reads.error
      have hopened : (d.answer (.openFile .current)).1 = openedOf d.current := rfl
      rw [hopened]
      cases hcurrent : d.current with
      | none => exact Reads.done fun state hstate => by cases hstate
      | some inode =>
          refine (readActive_reads inode).andThen fun read hread => ?_
          obtain ⟨links, content⟩ := read
          obtain ⟨rfl, rfl⟩ := Prod.mk.inj hread
          refine Reads.andThen (Reads.lift fun _ => id) fun active hactive => ?_
          obtain ⟨hlinks, habove, hbytes, hevents⟩ := checkActive_ok hactive
          refine Reads.done fun state hstate => ?_
          obtain rfl := Option.some.inj hstate
          exact ⟨hcurrent, hpresent rfl, hlinks, hlinks, hrotated ▸ habove, hbytes, hevents⟩

/-- Where nothing fails an active segment with one name and within the bound is read. -/
theorem outcome_readActive {inode : Nat} (hlinks : d.links inode = 1)
    (hbound : (d.bytes inode).length ≤ maxSegmentBytes) :
    outcome (readActive inode) d = (.ok (1, d.bytes inode), d) := by
  have hexamined : outcome (examineActiveEnvelope inode) d =
      (.ok (1, (d.bytes inode).length), d) := by
    show outcome (LogProg.check (d.links inode = 1 || d.links inode = 2) badFile
      (LogProg.done (d.links inode, (d.bytes inode).length))) d = _
    rw [hlinks]
    rfl
  have hread := @outcome_readBounded_normalize d inode maxSegmentBytes "MH_LOG_OPEN" unreadable
  rw [if_neg (Nat.not_lt.mpr hbound)] at hread
  unfold readActive
  rw [outcome_andThen_ok hexamined, outcome_andThen_ok hread]
  rfl

/-- The active segment is read where nothing fails. -/
theorem outcome_readActiveState {inode : Nat} {active : ActiveContent} (hunstaged : d.staging = none)
    (hnamed : d.current = some inode) (hfew : d.rotated.length ≤ maxRotations)
    (hlinks : d.links inode = 1) (hbound : (d.bytes inode).length ≤ maxSegmentBytes)
    (hchecked : checkActive rt ("an interrupted rotation left a trailer in the " ++
      "active segment; run recovery") (d.bytes inode) 1 (d.rotated.map Prod.fst) = .ok active) :
    outcome (readActiveState rt) d = (.ok (some ⟨inode, 1, active⟩), d) := by
  have hpresent : outcome stagingPresent d = (.ok false, d) := by
    refine outcome_op.trans ?_
    rw [show (d.answer (.statName .staging)).1 = openedOf d.staging from rfl, hunstaged]
    rfl
  have hlisted : outcome listRotated d = (.ok (d.rotated.map Prod.fst), d) := by
    show outcome (if maxRotations < (d.rotated.map Prod.fst).length then _ else _) d = _
    rw [if_neg (by rw [List.length_map]; omega)]
    rfl
  unfold readActiveState
  rw [outcome_andThen_ok hpresent]
  show outcome (listRotated.andThen _) d = _
  rw [outcome_andThen_ok hlisted]
  refine outcome_op.trans ?_
  rw [show (d.answer (.openFile .current)).1 = openedOf d.current from rfl, hnamed]
  show outcome ((readActive inode).andThen _) d = _
  rw [outcome_andThen_ok (outcome_readActive hlinks hbound)]
  dsimp only
  rw [hchecked]
  rfl

/-! ## Closing it -/

/-- No rotation is above the highest one. -/
theorem le_highest_of_mem {rotated : List Nat} {n : Nat} (h : n ∈ rotated) :
    n ≤ highest rotated := by
  induction rotated with
  | nil => cases h
  | cons first rest ih =>
      rcases List.mem_cons.mp h with rfl | h
      · exact Nat.le_max_left _ _
      · exact (ih h).trans (Nat.le_max_right _ _)

/-- A sequence above every rotation has no rotated name. -/
theorem lookup_of_highest_lt {rotated : List (Nat × Nat)} {sequence : Nat}
    (h : highest (rotated.map Prod.fst) < sequence) : rotated.lookup sequence = none := by
  rw [List.lookup_eq_none_iff]
  intro entry hentry
  have hle := le_highest_of_mem (List.mem_map_of_mem (f := Prod.fst) hentry)
  exact bne_iff_ne.mpr (by omega)

/-- The directory after the active segment was closed: its file has the trailer and the rotated name,
and not the current one. -/
def retired (rt : LogRuntime) (d : LogDir) (state : ActiveState)
    (trailer : StructuredLogTrailerV1) : LogDir :=
  ((d.append state.inode (trailerLine rt trailer)).link state.inode
    state.content.header.sequence).unlinkCurrent state.inode

/-- The rotated name is linked, and the current one goes. -/
theorem outcome_completeRotation {sequence inode : Nat} (hnamed : d.current = some inode)
    (hfree : d.rotated.lookup sequence = none) :
    outcome (completeRotation sequence inode 1) d =
      (.ok (), (d.link inode sequence).unlinkCurrent inode) := by
  have hlinked : d.answer (.link sequence) = (.done, d.link inode sequence) := by
    unfold LogDir.answer
    dsimp only
    rw [hnamed, hfree]
  have hunlinked : (d.link inode sequence).answer (.unlink .current) =
      (true, (d.link inode sequence).unlinkCurrent inode) := by
    have hcurrent : (d.link inode sequence).current = some inode := hnamed
    unfold LogDir.answer
    dsimp only
    rw [hcurrent]
    rfl
  unfold completeRotation
  rw [if_neg (by decide)]
  refine outcome_op.trans ?_
  rw [hlinked]
  refine outcome_op.trans ?_
  refine outcome_op.trans ?_
  show outcome (LogProg.check ((d.link inode sequence).answer (.unlink .current)).1 _ _)
    ((d.link inode sequence).answer (.unlink .current)).2 = _
  rw [hunlinked]
  rfl

/-- Where nothing fails the current file is opened, if it has no other name. -/
theorem outcome_openForAppendAt {inode : Nat} (hnamed : d.current = some inode)
    (hlinks : d.links inode = 1) : outcome openForAppendAt d = (.ok inode, d) := by
  have hopened : (d.answer (.openFile .current)).1 = Opened.found inode := by
    show openedOf d.current = _
    rw [hnamed]
    rfl
  unfold openForAppendAt
  refine outcome_op.trans ?_
  rw [hopened]
  show outcome ((requirePrivateFile inode).andThen _) d = _
  rw [outcome_andThen_ok (outcome_requirePrivateFile hlinks)]
  rfl

/-- Renaming the error of a program that returns changes nothing. -/
theorem outcome_recode {p : LogProg Unit} {e : LoggingError} {t : LogDir}
    (h : outcome p d = (.ok (), t)) : outcome (LogProg.recode e p) d = (.ok (), t) := by
  refine (Prog.eval_bind p _).trans ?_
  have heval : p.eval faultless d = (.ok (), t) := h
  rw [heval]
  rfl

/-- **Closing the active segment**, where nothing fails, gives its file the trailer and the rotated
name. -/
theorem outcome_closeAndRotateActive {state : ActiveState} {now : Stamp}
    {trailer : StructuredLogTrailerV1} (h : Active rt d state)
    (htrailer : state.trailer rt now = .ok trailer) :
    outcome (closeAndRotateActive rt state now) d = (.ok (), retired rt d state trailer) := by
  have hcompleted : outcome (completeRotation state.content.header.sequence state.inode state.links)
      (d.append state.inode (trailerLine rt trailer)) = (.ok (), retired rt d state trailer) := by
    rw [h.own]
    exact outcome_completeRotation h.named (lookup_of_highest_lt h.above)
  unfold closeAndRotateActive
  rw [htrailer]
  show outcome (openForAppendAt.andThen _) d = _
  rw [outcome_andThen_ok (outcome_openForAppendAt h.named h.links)]
  -- the trailer is written whole, and the file synced and closed
  refine outcome_op.trans (outcome_op.trans ?_)
  show outcome (LogProg.check (decide ((trailerLine rt trailer).length =
    (trailerLine rt trailer).length)) _ _) (d.append state.inode (trailerLine rt trailer)) = _
  rw [decide_eq_true rfl]
  refine outcome_op.trans (outcome_op.trans ?_)
  exact outcome_recode hcompleted

/-- The one name of a closed active segment is the rotated one. -/
theorem links_retired {state : ActiveState} {trailer : StructuredLogTrailerV1}
    (h : Active rt d state) : (retired rt d state trailer).links state.inode = 1 := by
  have hlinks := h.links
  unfold LogDir.links at hlinks ⊢
  rw [if_pos h.named, h.unstaged] at hlinks
  have hnone : d.rotated.countP (fun e => decide (e.2 = state.inode)) = 0 := by
    rw [if_neg (by simp)] at hlinks
    omega
  show (if (none : Option Nat) = some state.inode then 1 else 0) +
    (if d.staging = some state.inode then 1 else 0) +
      (d.rotated ++ [(state.content.header.sequence, state.inode)]).countP
        (fun e => decide (e.2 = state.inode)) = 1
  rw [h.unstaged, List.countP_append, hnone]
  simp

/-- **What retention closes, it reads back if it fits**: a directory whose active segment it has read
is left, where nothing fails, with a rotation that is the bytes read and the trailer. Reading it back
gives its header and its trailer, unless the trailer takes the file over the bound of a segment. -/
theorem readClosedSegment_retired {state : ActiveState} {now : Stamp}
    {trailer : StructuredLogTrailerV1}
    (hread : (outcome (readActiveState rt) d).1 = .ok (some state))
    (htrailer : state.trailer rt now = .ok trailer) :
    ∃ d', outcome (closeAndRotateActive rt state now) d = (.ok (), d') ∧
      d'.rotated.lookup state.content.header.sequence = some state.inode ∧
      d'.bytes state.inode = d.bytes state.inode ++ trailerLine rt trailer ∧
      outcome (readClosedSegment rt state.content.header.sequence) d' =
        if maxSegmentBytes < (d.bytes state.inode ++ trailerLine rt trailer).length then
          (.error (.logging (retentionFail "a log segment exceeds its byte bound")), d')
        else (.ok ⟨state.content.header, trailer,
          (state.inode, (d.bytes state.inode ++ trailerLine rt trailer).length)⟩, d') := by
  have h : Active rt d state := (readActiveState_reads.outcome_ok hread).2 state rfl
  have hnamed : (retired rt d state trailer).rotated.lookup state.content.header.sequence =
      some state.inode := by
    show (d.rotated ++ [(state.content.header.sequence, state.inode)]).lookup _ = _
    rw [List.lookup_append, lookup_of_highest_lt h.above, Option.none_or, List.lookup_cons_self]
  have hbytes : (retired rt d state trailer).bytes state.inode =
      d.bytes state.inode ++ trailerLine rt trailer := if_pos rfl
  have hchecked : checkClosed rt (d.bytes state.inode ++ trailerLine rt trailer)
      state.content.header.sequence = .ok (state.content.header, trailer) := by
    obtain ⟨deadline, hdeadline, hmake⟩ := Except.bind_eq_ok_iff.mp htrailer
    obtain ⟨hsequence, hcount, hdigest, hexpires⟩ := make_trailer_ok hmake
    rw [h.bytes]
    refine checkClosed_of_closed rfl hsequence h.events ?_
    exact ⟨hcount, hdigest, by rw [hexpires, hdeadline]⟩
  refine ⟨_, outcome_closeAndRotateActive h htrailer, hnamed, hbytes, ?_⟩
  rw [outcome_readClosedSegment hnamed (links_retired h), hbytes, hchecked]

/-- A directory with an active segment of one event. -/
def sampleLogs : LogDir where
  inodes := 8
  bytes _ := certifiedBytes sampleLogRuntime sampleLogHeader [firstLine]
  current := some 7
  staging := none
  rotated := []
  history := ⟨[], [], [], []⟩

def sampleActive : ActiveState := ⟨7, 1, ⟨sampleLogHeader, [firstLine], some 0⟩⟩

/-- The trailer of the sample segment can be made at its instant. -/
theorem sampleActive_trailer :
    sampleActive.trailer sampleLogRuntime 1000 = .ok sampleLogTrailer := by
  have hexpires : boundedExpiry sampleLogHeader.openedAt sampleLogHeader.retentionDays =
      .ok sampleLogTrailer.expiresAt := if_pos (by decide)
  exact Except.bind_eq_ok_iff.mpr ⟨_, hexpires, sampleLogTrailer.make_self⟩

/-- Nothing fails in the read of the sample. -/
theorem outcome_sampleLogs :
    (outcome (readActiveState sampleLogRuntime) sampleLogs).1 = .ok (some sampleActive) := by
  have hscan : scanEvents sampleLogRuntime ("an interrupted rotation left a trailer in the " ++
      "active segment; run recovery") none [firstLine] = .ok (some 0) := by
    unfold scanEvents
    rw [isTrailerLine_eventLine firstLine_eq, validate_eventLine firstLine_eq]
    rfl
  have hbound : (sampleLogs.bytes 7).length ≤ maxSegmentBytes := by decide +kernel
  have hchecked := @checkActive_of sampleLogRuntime _ [] sampleLogHeader _ _ (by decide) hscan
  have hread := @outcome_readActiveState _ sampleLogs 7 _ rfl rfl (by decide) (by decide) hbound
    hchecked
  exact congrArg Prod.fst hread

/-- The event is a second old when its segment is closed, and it is read back. -/
theorem readClosedSegment_retired_sample : ∃ d',
    outcome (closeAndRotateActive sampleLogRuntime sampleActive 1000) sampleLogs = (.ok (), d') ∧
      d'.rotated.lookup 4 = some 7 ∧
      d'.bytes 7 = sampleLogs.bytes 7 ++ trailerLine sampleLogRuntime sampleLogTrailer ∧
      outcome (readClosedSegment sampleLogRuntime 4) d' =
        if maxSegmentBytes < (sampleLogs.bytes 7 ++
            trailerLine sampleLogRuntime sampleLogTrailer).length then
          (.error (.logging (retentionFail "a log segment exceeds its byte bound")), d')
        else (.ok ⟨sampleLogHeader, sampleLogTrailer, (7, (sampleLogs.bytes 7 ++
          trailerLine sampleLogRuntime sampleLogTrailer).length)⟩, d') :=
  readClosedSegment_retired outcome_sampleLogs sampleActive_trailer

end StructuredLogs

end Milhouse
