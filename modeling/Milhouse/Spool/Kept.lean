import Milhouse.Spool.Commit
import Milhouse.Spool.Interference

/-!
# Milhouse — an acknowledged segment is kept

A `Commitment` is a record that `commitSegment` returned, with the bytes it published. While it is
`Recorded` its row is in the ledger, and while it is `Live` every listing a crash may leave shows
its bytes under its name as well. A prune whose `now` is past the expiry of every record ends both
promises (`Expired`). The file has one more way out: a reconciliation pass takes a segment that it
cannot read for a corrupt one, whatever its bytes are, and moves it away (`Unread`).

Most operations cannot touch a live commitment whatever the state (`Harmless`), so a program all of
whose operations are harmless is safe with no further argument (`keptSafe_of_harmless`). The
argument is in the rest: what classification queues (`ScanSafe`), and which file retention removes.
-/

namespace Milhouse

open Disk Interaction Interaction.Prog

/-- A record that was acknowledged for these bytes, when the history had `since` events. -/
structure Commitment where
  record : SegmentRecord
  content : Bytes
  since : Nat

namespace Commitment

variable (a : Commitment)

def path : Path := segmentPath a.record.day a.record.batchId

def name : String := segmentName a.record.batchId

end Commitment

section Promise

variable (fmt : SegmentFormat) (a : Commitment) (s : SpoolState)

/-- Some prune among the events had a `now` at or after the expiry of every record of the bytes. -/
def Expired (content : Bytes) (events : List Event) : Prop :=
  ∃ parsed, fmt.read content = .ok parsed ∧
    ∃ r now, .pruned r now ∈ events ∧ fullyExpired fmt parsed now = true

theorem Expired.mono {fmt : SegmentFormat} {content : Bytes} {events events' : List Event}
    (h : Expired fmt content events) (hevents : events <+: events') :
    Expired fmt content events' := by
  obtain ⟨parsed, hread, r, now, hmem, hexpired⟩ := h
  exact ⟨parsed, hread, r, now, hevents.subset hmem, hexpired⟩

/-- The row is in the ledger with its delivery rows. -/
structure Recorded : Prop where
  row : s.ledger.segments.lookup a.record.batchId = some a.record.toSegmentRow
  exporters : ∀ e, s.ledger.required a.record.batchId e ↔ e ∈ a.record.exporters.map (·.1)
  since : a.since ≤ s.history.length

/-- The row is in the ledger, and the bytes are in their place. -/
structure Live : Prop extends Recorded a s where
  file : (s.dir .pending a.record.day).All fun l =>
    ∃ f, l.lookup a.name = some f ∧ f.content = a.content

/-- Since the acknowledgement a reconciliation pass failed to read the file, for a reason other than
its bytes. -/
def Unread : Prop := .unreadable a.path true ∈ s.history.drop a.since

/-- Since the acknowledgement a prune came at or after the expiry of every record. -/
def Overdue : Prop := Expired fmt a.content (s.history.drop a.since)

/-- The trusted reader accepts the bytes, and they agree with the record. -/
def Accepts : Prop := ∃ parsed, fmt.read a.content = .ok parsed ∧
  agrees parsed a.record.day a.record.batchId a.record = true

end Promise

/-! ## What one operation does to a live commitment -/

/-- An operation that cannot end a live commitment in any state. -/
def Harmless (a : Commitment) : SpoolOp → Prop
  | .unlink p | .truncate p => p ≠ a.path
  | .rename tree day src dst replace =>
      ⟨tree, day, src⟩ ≠ a.path ∧ (replace = true → ⟨tree, day, dst⟩ ≠ a.path)
  | .pruneSegment r _ => r.batchId ≠ a.record.batchId
  | _ => True

section Steps

variable {fmt : SegmentFormat} {a : Commitment} {s s' : SpoolState}

/-! ### The row -/

/-- An operation that does not prune the commitment's row. -/
def Unpruned (a : Commitment) : SpoolOp → Prop
  | .pruneSegment r _ => r.batchId ≠ a.record.batchId
  | _ => True

theorem Recorded.of_same (h : Recorded a s) (hledger : s'.ledger = s.ledger)
    (hhistory : s.history <+: s'.history) : Recorded a s' := by
  refine ⟨?_, fun e => ?_, h.since.trans hhistory.length_le⟩
  · rw [hledger]
    exact h.row
  · rw [hledger]
    exact h.exporters e

/-- An insert finds the row and changes nothing of it. -/
theorem Recorded.insert (h : Recorded a s) {r : SegmentRecord} {t : Ledger}
    (hinsert : s.ledger.insertSegment r = some t) : Recorded a (s.setLedger t) := by
  obtain ⟨hnone, hsegments, -, -⟩ := Ledger.insertSegment_eq hinsert
  have hne : r.batchId ≠ a.record.batchId := by
    intro heq
    rw [heq, h.row] at hnone
    cases hnone
  refine ⟨?_, fun e => ?_, h.since⟩
  · rw [SpoolState.ledger_setLedger, hsegments, AList.lookup_insert_ne hne.symm]
    exact h.row
  · rw [SpoolState.ledger_setLedger, Ledger.insertSegment_required hinsert, h.exporters]
    simp [hne]

/-- A prune of another segment keeps the row. -/
theorem Recorded.prune (h : Recorded a s) {r : SegmentRecord} {now : Stamp} {t : Ledger}
    (hprune : s.ledger.pruneSegment r now = some t) (hne : r.batchId ≠ a.record.batchId) :
    Recorded a (s.setLedger t) := by
  obtain ⟨-, hsegments, -⟩ := Ledger.pruneSegment_eq hprune
  refine ⟨?_, fun e => ?_, h.since⟩
  · rw [SpoolState.ledger_setLedger, hsegments, AList.lookup_erase_ne hne.symm]
    exact h.row
  · rw [SpoolState.ledger_setLedger, Ledger.pruneSegment_required hprune hne]
    exact h.exporters e

/-- A delivery status is not part of the promise. -/
theorem Recorded.status (h : Recorded a s) (b e : String) (status : DeliveryStatus) :
    Recorded a (s.setLedger (s.ledger.advanceStatus b e status).2) := by
  refine ⟨?_, fun x => ?_, h.since⟩
  · rw [SpoolState.ledger_setLedger, Ledger.advanceStatus_tables.1]
    exact h.row
  · rw [SpoolState.ledger_setLedger, Ledger.advanceStatus_required]
    exact h.exporters x

/-- **An operation that does not prune the row keeps it.** -/
theorem Recorded.change (h : Recorded a s) {o : SpoolOp} (ho : Unpruned a o)
    (hchange : SpoolState.Change s o s') : Recorded a s' := by
  cases hchange with
  | insert r t hinsert => exact h.insert hinsert
  | prune r now t hprune => exact (h.prune hprune ho).of_same rfl (List.prefix_append _ _)
  | status b e status => exact h.status b e status
  | tombstone b => exact ⟨h.row, h.exporters, h.since⟩
  | unreadable | handed | note => exact h.of_same rfl (List.prefix_append _ _)
  | ensure => exact h.of_same (by simp) (by simp)
  | ensureSync => exact h.of_same (by simp) (by simp)
  | _ => exact h.of_same rfl (List.prefix_refl _)

/-- Interference keeps the row. -/
theorem Recorded.calm (h : Recorded a s) (hcalm : Calm s s') : Recorded a s' where
  row := by rw [hcalm.segments]; exact h.row
  exporters e := (hcalm.required _ e).trans (h.exporters e)
  since := h.since.trans hcalm.history.length_le

/-! ### The file -/

theorem Live.stat (h : Live a s) : ∃ f, s.stat a.path = some f ∧ f.content = a.content := by
  obtain ⟨f, hf, hcontent⟩ := h.file.current
  have hfile : s.file a.path = some f := hf
  simp only [SpoolState.stat, hfile, Option.map_some, Option.some.injEq, exists_eq_left']
  split
  · exact hcontent
  · exact hcontent

theorem Live.file_eq (h : Live a s) : ∃ f, s.file a.path = some f ∧ f.content = a.content :=
  h.file.current

/-- A change of one directory that leaves the commitment's name alone keeps its file. -/
theorem Live.file_of_dir (h : Live a s)
    (hdir : s'.dir .pending a.record.day = s.dir .pending a.record.day ∨
      ∃ l, s'.dir .pending a.record.day = (s.dir .pending a.record.day).update l ∧
        l.lookup a.name = (s.dir .pending a.record.day).current.lookup a.name) :
    (s'.dir .pending a.record.day).All fun l =>
      ∃ f, l.lookup a.name = some f ∧ f.content = a.content := by
  rcases hdir with hdir | ⟨l, hdir, hl⟩
  · rw [hdir]; exact h.file
  · rw [hdir]
    refine h.file.update ?_
    rw [hl]
    exact h.file.current

/-- Putting a file at another path keeps the commitment's. -/
theorem Live.put (h : Live a s) {p : Path} {f : File} (hp : p ≠ a.path) : Live a (s.put p f) := by
  refine ⟨h.of_same rfl (List.prefix_refl _), h.file_of_dir ?_⟩
  rw [SpoolState.dir_put]
  split
  · rename_i hd
    refine Or.inr ⟨_, rfl, AList.lookup_insert_ne ?_⟩
    rintro hn
    obtain ⟨ht, hday⟩ := Prod.mk.inj hd
    exact hp (by cases p; simp_all [Commitment.path, segmentPath, Commitment.name])
  · exact Or.inl rfl

/-- Removing another path keeps the commitment's file. -/
theorem Live.remove (h : Live a s) {p : Path} (hp : p ≠ a.path) : Live a (s.remove p) := by
  refine ⟨h.of_same rfl (List.prefix_refl _), h.file_of_dir ?_⟩
  rw [SpoolState.dir_remove]
  split
  · rename_i hd
    refine Or.inr ⟨_, rfl, AList.lookup_erase_ne ?_⟩
    rintro hn
    obtain ⟨ht, hday⟩ := Prod.mk.inj hd
    exact hp (by cases p; simp_all [Commitment.path, segmentPath, Commitment.name])
  · exact Or.inl rfl

/-- A rename between other paths keeps the commitment's file. -/
theorem Live.move (h : Live a s) {tree : Tree} {day : Day} {src dst : String} {f : File}
    (hsrc : (⟨tree, day, src⟩ : Path) ≠ a.path) (hdst : (⟨tree, day, dst⟩ : Path) ≠ a.path) :
    Live a (s.move tree day src dst f) := by
  refine ⟨h.of_same rfl (List.prefix_refl _), h.file_of_dir ?_⟩
  rw [SpoolState.dir_move]
  split
  · rename_i hd
    obtain ⟨rfl, rfl⟩ := Prod.mk.inj hd
    have hne : ∀ n : String, (⟨.pending, a.record.day, n⟩ : Path) ≠ a.path → a.name ≠ n := by
      rintro n hn rfl
      exact hn rfl
    refine Or.inr ⟨_, rfl, ?_⟩
    rw [AList.lookup_insert_ne (hne _ hdst), AList.lookup_erase_ne (hne _ hsrc)]
  · exact Or.inl rfl

theorem Live.sync (h : Live a s) (tree : Tree) (day : Day) : Live a (s.syncDir tree day) := by
  refine ⟨h.of_same rfl (List.prefix_refl _), ?_⟩
  rw [SpoolState.dir_syncDir]
  split
  · exact h.file.sync
  · exact h.file

theorem Live.ensure (h : Live a s) (tree : Tree) (day : Day) : Live a (s.ensure tree day) :=
  ⟨h.of_same (by simp) (by simp), by simpa using h.file⟩

/-- **A harmless operation keeps a live commitment.** -/
theorem Live.change (h : Live a s) {o : SpoolOp} (ho : Harmless a o)
    (hchange : SpoolState.Change s o s') : Live a s' := by
  obtain ⟨g, hg, -⟩ := h.file_eq
  -- what exists is not created again: the live file is no operation's fresh destination
  have hfresh : ∀ p : Path, s.file p = none → p ≠ a.path := by
    rintro p hnone rfl
    rw [hg] at hnone
    cases hnone
  have hrecorded : Recorded a s' :=
    h.toRecorded.change (by cases o <;> first | exact ho | trivial) hchange
  cases hchange with
  | same => exact h
  | create p content written habsent _ =>
      exact ⟨hrecorded, (h.put (f := ⟨written, s.nextInode, .private⟩) (hfresh p habsent)).file⟩
  | truncate p f _ => exact h.put ho
  | rename tree day src dst replace f _ hdst =>
      refine h.move ho.1 ?_
      cases replace with
      | false => exact hfresh _ (hdst rfl)
      | true => exact ho.2 rfl
  | link tree day src dst f _ habsent => exact h.put (hfresh _ habsent)
  | unlink p f _ => exact h.remove ho
  | sync tree day => exact h.sync tree day
  | ensure tree day _ => exact h.ensure tree day
  | ensureSync tree day => exact (h.ensure tree day).sync tree day
  | insert | prune | tombstone | handed | status | note | unreadable => exact ⟨hrecorded, h.file⟩

/-- What follows the acknowledgement only grows. -/
theorem since_mono (hhistory : s.history <+: s'.history) :
    s.history.drop a.since <+: s'.history.drop a.since := by
  obtain ⟨later, hlater⟩ := hhistory
  rw [← hlater, List.drop_append]
  exact List.prefix_append _ _

theorem Overdue.mono (h : Overdue fmt a s) (hhistory : s.history <+: s'.history) :
    Overdue fmt a s' := Expired.mono h (since_mono hhistory)

theorem Unread.mono (h : Unread a s) (hhistory : s.history <+: s'.history) : Unread a s' :=
  (since_mono hhistory).subset h

/-- Interference keeps a live commitment. -/
theorem Live.calm (h : Live a s) (hcalm : Calm s s') : Live a s' where
  toRecorded := h.toRecorded.calm hcalm
  file := hcalm.all (fun _ _ hgrow ⟨f, hf, hcontent⟩ => ⟨f, hgrow _ _ hf, hcontent⟩) h.file

/-- **A crash keeps a live commitment**: every listing it may leave shows it. -/
theorem Live.crash (h : Live a s) (kept : Tree × Day → Nat) : Live a (s.crash kept) := by
  refine ⟨h.of_same rfl (List.prefix_refl _), ?_⟩
  rw [SpoolState.dir_crash]
  exact h.file.settle _

end Steps

/-! ## Rules for whole programs -/

/-- The promise of an acknowledged segment's row. -/
def rowKept (fmt : SegmentFormat) (a : Commitment) : Promise spoolHandler Calm where
  alive := Recorded a
  ended := Overdue fmt a
  alive_rely := Recorded.calm
  ended_rely h hcalm := h.mono hcalm.history
  ended_step h hstep := h.mono (SpoolState.perform_change hstep).history

/-- The promise of its row and its file. -/
def kept (fmt : SegmentFormat) (a : Commitment) : Promise spoolHandler Calm where
  alive := Live a
  ended s := Unread a s ∨ Overdue fmt a s
  alive_rely := Live.calm
  ended_rely h hcalm := h.imp (·.mono hcalm.history) (·.mono hcalm.history)
  ended_step h hstep :=
    have hhistory := (SpoolState.perform_change hstep).history
    h.imp (·.mono hhistory) (·.mono hhistory)

section Rules

variable {fmt : SegmentFormat} {a : Commitment} {s : SpoolState} {α β : Type}

/-- A program that keeps the promise at every point, and returns with the promise ended or the
commitment live and `Q`. -/
abbrev KeptSafe (fmt : SegmentFormat) (a : Commitment) (p : SpoolProg α)
    (Q : α → SpoolState → Prop) (s : SpoolState) : Prop := p.Keeps (kept fmt a) Q s

theorem keptSafe_ret {x : α} {Q : α → SpoolState → Prop} (hlive : Live a s) (hQ : Q x s) :
    KeptSafe fmt a (.ret x) Q s := Keeps.ret hlive hQ

/-- The rule of one harmless operation. -/
theorem keptSafe_harmless_op {o : SpoolOp} {k : o.Resp → SpoolProg α}
    {Q : α → SpoolState → Prop} (hlive : Live a s) (ho : Harmless a o)
    (h : ∀ s₁, Calm s s₁ → Live a s₁ → ∀ c r s', s₁.perform o c = some (r, s') → Live a s' →
      KeptSafe fmt a (k r) Q s') :
    KeptSafe fmt a (call (Γ := spoolSignature) o >>= k) Q s :=
  Keeps.op hlive fun s₁ hcalm (hlive₁ : Live a s₁) c r s' hstep =>
    have hlive' := hlive₁.change ho (SpoolState.perform_change hstep)
    Or.inr ⟨hlive', h s₁ hcalm hlive₁ c r s' hstep hlive'⟩

/-- Others, or operations that only observe, left the commitment's file as it was. -/
def Still (a : Commitment) (s t : SpoolState) : Prop := t.stat a.path = s.stat a.path

/-- The rule of one operation that only observes. -/
theorem keptSafe_observe {o : SpoolOp} {k : o.Resp → SpoolProg α} {Q : α → SpoolState → Prop}
    (hlive : Live a s) (ho : o.observes)
    (h : ∀ s₁, Still a s s₁ → Live a s₁ → ∀ c r s', s₁.perform o c = some (r, s') →
      Still a s s' → Live a s' → Unread a s' ∨ KeptSafe fmt a (k r) Q s') :
    KeptSafe fmt a (call (Γ := spoolSignature) o >>= k) Q s := by
  refine Keeps.op hlive fun s₁ hcalm (hlive₁ : Live a s₁) c r s' hstep => ?_
  obtain ⟨f, hf, -⟩ := hlive.stat
  have hstill₁ : Still a s s₁ := (hcalm.stat _ _ hf).trans hf.symm
  have hharmless : Harmless a o := by cases o <;> trivial
  have hlive' := hlive₁.change hharmless (SpoolState.perform_change hstep)
  have hstill : Still a s s' :=
    (SpoolState.stat_congr (SpoolState.perform_observes ho hstep).1 _).trans hstill₁
  rcases h s₁ hstill₁ hlive₁ c r s' hstep hstill hlive' with hunread | hk
  · exact Or.inl (Or.inl hunread)
  · exact Or.inr ⟨hlive', hk⟩

/-- A program of harmless operations is safe. -/
theorem keptSafe_of_harmless {p : SpoolProg α} (hp : p.Only (Harmless a)) (hlive : Live a s) :
    KeptSafe fmt a p (fun _ _ => True) s :=
  Keeps.of_only hp (fun _ _ _ _ _ ho hl hstep =>
    Live.change hl ho (SpoolState.perform_change hstep)) hlive

/-- A program that does not prune the row keeps it. -/
theorem recordedSafe_of_only {p : SpoolProg α} (hp : p.Only (Unpruned a)) (h : Recorded a s) :
    p.Keeps (rowKept fmt a) (fun _ _ => True) s :=
  Keeps.of_only hp (fun _ _ _ _ _ ho hr hstep =>
    Recorded.change hr ho (SpoolState.perform_change hstep)) h

end Rules

end Milhouse
