import Milhouse.Spool.Healthy
import Milhouse.Spool.KeptPass

/-!
# Milhouse — what the mutations of a pass leave alone

A pass destroys leaves of `pending` that it classified as files of one name, and names it has just
created itself. So three kinds of files stay as they were: those a pass must not move (`vital`),
those with a second name, which no certification lets through, and apart from removals every file
with the name of a segment (`Spared`).

* **`Spared.step`** — an operation that destroys neither a vital nor a shared file keeps `Spared`;
* **`moveToQuarantine_spared`**, **`applyScan_spared`** — so do the mutations of a pass, which finds
  its retirement names free before it replaces them;
* **`reconcilePass_spared`** — after a complete pass the ledger lists the records it had and those of
  the orphans.
-/

namespace Milhouse.Verify

open Interaction Interaction.Prog

/-! ## Files of one name and of several -/

/-- The file at a leaf, where no other name of its directory shows it. -/
def Alone (s : SpoolState) (p : Path) (f : File) : Prop :=
  s.file p = some f ∧
    ∀ name g, name ≠ p.name → s.file ⟨p.tree, p.day, name⟩ = some g → g.inode ≠ f.inode

/-- The file at a leaf of `pending` has a second name. -/
def Shared (s : SpoolState) (p : Path) : Prop :=
  p.tree = .pending ∧ ∃ f name g, s.file p = some f ∧ name ≠ p.name ∧
    s.file ⟨p.tree, p.day, name⟩ = some g ∧ g.inode = f.inode

section Names

variable {s : SpoolState} {p : Path} {f : File}

/-- A private file is found as it is. -/
theorem stat_of_alone (h : Alone s p f) : s.stat p = some f := by
  have hany : ¬ ((s.dir p.tree p.day).current.entries.any
      fun e => e.1 ≠ p.name && e.2.inode = f.inode) = true := by
    intro hany
    obtain ⟨⟨name, g⟩, hmem, hg⟩ := List.any_eq_true.mp hany
    simp only [ne_eq, Bool.and_eq_true, decide_eq_true_eq] at hg
    have hne : name ≠ p.name := by simpa using hg.1
    exact h.2 name g hne (AList.mem_lookup_iff.mpr hmem) hg.2
  unfold SpoolState.stat
  rw [h.1, Option.map_some, if_neg hany]

/-- A file that is found trusted has no other name and nothing wrong with its mode. -/
theorem alone_of_stat (h : s.stat p = some f) (hloose : f.shape ≠ .loose)
    (hspecial : f.shape ≠ .special) : Alone s p f := by
  obtain ⟨g, hg, hstat⟩ := Option.map_eq_some_iff.mp h
  split at hstat
  · exfalso
    rw [← hstat] at hloose hspecial
    by_cases hshape : g.shape = .special
    · exact hspecial (if_pos hshape)
    · exact hloose (if_neg hshape)
  · rename_i hany
    subst hstat
    refine ⟨hg, fun name g' hname hg' hinode => hany (List.any_eq_true.mpr ?_)⟩
    refine ⟨⟨name, g'⟩, AList.mem_lookup_iff.mp hg', ?_⟩
    simp [hname, hinode]

/-- A file of one name is not shared. -/
theorem not_shared_of_unshared (h : Unshared s p) : ¬ Shared s p := by
  rintro ⟨-, f, name, g, hf, hname, hg, hinode⟩
  obtain ⟨f', hstat, hloose, hspecial⟩ := h
  obtain ⟨hf', halone⟩ := alone_of_stat hstat hloose hspecial
  rw [hf] at hf'
  obtain rfl := Option.some.inj hf'
  exact halone name g hname hg hinode

/-- Both names of a shared file are shared. -/
theorem Shared.twin {name : String} {g : File} (htree : p.tree = .pending) (hf : s.file p = some f)
    (hname : name ≠ p.name) (hg : s.file ⟨p.tree, p.day, name⟩ = some g)
    (hinode : g.inode = f.inode) : Shared s ⟨p.tree, p.day, name⟩ :=
  ⟨htree, g, p.name, f, hg, hname.symm, hf, hinode.symm⟩

end Names

/-! ## What is spared -/

/-- The records of a ledger, up to their delivery statuses. -/
structure Lists (t : Ledger) (rs : List SegmentRecord) : Prop where
  sound : t.Sound
  only : ∀ r' ∈ t.records, ∃ r ∈ rs, SameSegment r' r
  all : ∀ r ∈ rs, ∃ r' ∈ t.records, SameSegment r' r

/-- What a pass that started from `s` has left alone, with the records the ledger lists by now. -/
structure Spared (s : SpoolState) (vital : Path → Prop) (rs : List SegmentRecord)
    (u : SpoolState) : Prop where
  inodes : ∀ p f, u.file p = some f → f.inode < u.nextInode
  shared : ∀ p, Shared s p → u.file p = s.file p
  vital : ∀ p f, vital p → Alone s p f → Alone u p f
  receding : ∀ p, p.tree = .pending → ¬ stagePrefix.toList <+: p.name.toList →
    u.file p = s.file p ∨ u.file p = none
  lists : Lists u.ledger rs

/-- The vital leaves are files of one name in `pending`, and no temporaries. -/
structure Vital (s : SpoolState) (vital : Path → Prop) : Prop where
  alone : ∀ p, vital p → ∃ f, Alone s p f
  tree : ∀ p, vital p → p.tree = .pending
  name : ∀ p, vital p → ¬ stagePrefix.toList <+: p.name.toList

/-- An operation that destroys no leaf of `pending` for which `K` holds, gives no name there but a
temporary one, and leaves the rows of the ledger alone. -/
def Spares (K : Path → Prop) : SpoolOp → Prop
  | .createExcl p _ => p.tree = .pending → stagePrefix.toList <+: p.name.toList
  | .unlink p => p.tree = .pending → ¬ K p
  | .rename tree day src dst _ => tree = .pending →
      ¬ K ⟨.pending, day, src⟩ ∧ ¬ K ⟨.pending, day, dst⟩ ∧ stagePrefix.toList <+: dst.toList
  | .link tree .. => tree = .quarantine
  | .truncate _ | .insertSegment _ | .pruneSegment .. | .advanceStatus .. => False
  | _ => True

section Step

variable {s u u' : SpoolState} {vital : Path → Prop} {rs : List SegmentRecord}

/-- The leaves a pass must not destroy. -/
def Guarded (s : SpoolState) (vital : Path → Prop) (p : Path) : Prop := Shared s p ∨ vital p

/-- A ledger lists the same records while its segments and its exporters stay. -/
theorem Lists.congr {t t' : Ledger} (h : Lists t rs) (hsegments : t'.segments = t.segments)
    (hexporters : t'.exporters = t.exporters) : Lists t' rs := by
  have hrecords : t'.records = t.records := by
    unfold Ledger.records Ledger.record Ledger.loadExporters
    rw [hsegments, hexporters]
  refine ⟨fun b e he => ?_, ?_, ?_⟩
  · unfold Ledger.required at he
    rw [hexporters] at he
    rw [hsegments]
    exact h.sound b e he
  · rw [hrecords]
    exact h.only
  · rw [hrecords]
    exact h.all

/-- Nothing has happened yet. -/
theorem Spared.start (hsound : s.ledger.Sound)
    (hinodes : ∀ p f, s.file p = some f → f.inode < s.nextInode) :
    Spared s vital s.ledger.records s where
  inodes := hinodes
  shared _ _ := rfl
  vital _ _ _ halone := halone
  receding _ _ _ := Or.inl rfl
  lists := ⟨hsound, fun r hr => ⟨r, hr, rfl, rfl, fun _ => Iff.rfl⟩,
    fun r hr => ⟨r, hr, rfl, rfl, fun _ => Iff.rfl⟩⟩

/-- Guarded leaves are there. -/
theorem Spared.present (hvital : Vital s vital) (h : Spared s vital rs u) {p : Path}
    (hp : Guarded s vital p) : (u.file p).isSome := by
  rcases hp with hp | hp
  · rw [h.shared p hp]
    obtain ⟨-, f, -, -, hf, -⟩ := hp
    rw [hf]
    rfl
  · obtain ⟨f, halone⟩ := hvital.alone p hp
    rw [(h.vital p f hp halone).1]
    rfl

/-- A change of files that leaves every guarded leaf, shows no file under a second name and gives no
name of a segment keeps what is spared. -/
theorem Spared.of_files (h : Spared s vital rs u)
    (hinodes : ∀ p f, u'.file p = some f → f.inode < u'.nextInode)
    (hguarded : ∀ p, Guarded s vital p → u'.file p = u.file p)
    (hfresh : ∀ p f, vital p → Alone u p f → ∀ name g, name ≠ p.name →
      u'.file ⟨p.tree, p.day, name⟩ = some g → g.inode ≠ f.inode)
    (hreceding : ∀ p, p.tree = .pending → ¬ stagePrefix.toList <+: p.name.toList →
      u'.file p = u.file p ∨ u'.file p = none)
    (hsegments : u'.ledger.segments = u.ledger.segments)
    (hexporters : u'.ledger.exporters = u.ledger.exporters) : Spared s vital rs u' where
  inodes := hinodes
  shared p hp := (hguarded p (Or.inl hp)).trans (h.shared p hp)
  vital p f hp hf := by
    have hu := h.vital p f hp hf
    exact ⟨(hguarded p (Or.inr hp)).trans hu.1, hfresh p f hp hu⟩
  receding p htree hname := by
    rcases hreceding p htree hname with hsame | hnone
    · rw [hsame]
      exact h.receding p htree hname
    · exact Or.inr hnone
  lists := h.lists.congr hsegments hexporters

/-- Where no file of `pending` changes. -/
theorem Spared.of_same (hvital : Vital s vital) (h : Spared s vital rs u)
    (hinodes : ∀ p f, u'.file p = some f → f.inode < u'.nextInode)
    (hfile : ∀ p, p.tree = .pending → u'.file p = u.file p)
    (hsegments : u'.ledger.segments = u.ledger.segments)
    (hexporters : u'.ledger.exporters = u.ledger.exporters) : Spared s vital rs u' := by
  refine h.of_files hinodes ?_ ?_ (fun p htree _ => Or.inl (hfile p htree)) hsegments hexporters
  · rintro p (hp | hp)
    · exact hfile p hp.1
    · exact hfile p (hvital.tree p hp)
  · intro p f hp hu name g hname hg
    rw [hfile ⟨p.tree, p.day, name⟩ (hvital.tree p hp)] at hg
    exact hu.2 name g hname hg

/-- **An operation that spares the guarded leaves.** -/
theorem Spared.step {o : SpoolOp} (hvital : Vital s vital) (h : Spared s vital rs u)
    (ho : Spares (Guarded s vital) o) (hchange : SpoolState.Change u o u') :
    Spared s vital rs u' := by
  cases hchange with
  | same => exact h
  | unreadable | handed | note =>
      exact h.of_same hvital h.inodes (fun _ _ => rfl) rfl rfl
  | tombstone => exact h.of_same hvital h.inodes (fun _ _ => rfl) rfl rfl
  | sync tree day =>
      have hfile : ∀ p, (u.syncDir tree day).file p = u.file p := fun p => by simp
      exact h.of_same hvital (fun p f hf => h.inodes p f (hfile p ▸ hf)) (fun p _ => hfile p) rfl rfl
  | ensure tree day sync =>
      have hfile : ∀ p, (u.ensure tree day).file p = u.file p := fun p => by simp
      have hnext : (u.ensure tree day).nextInode = u.nextInode := by
        unfold SpoolState.ensure
        split <;> rfl
      refine h.of_same hvital (fun p f hf => ?_) (fun p _ => hfile p) (by simp) (by simp)
      rw [hnext]
      exact h.inodes p f (hfile p ▸ hf)
  | ensureSync tree day =>
      have hfile : ∀ p, ((u.ensure tree day).syncDir tree day).file p = u.file p := fun p => by simp
      have hnext : ((u.ensure tree day).syncDir tree day).nextInode = u.nextInode := by
        unfold SpoolState.ensure
        split <;> rfl
      refine h.of_same hvital (fun p f hf => ?_) (fun p _ => hfile p) (by simp) (by simp)
      rw [hnext]
      exact h.inodes p f (hfile p ▸ hf)
  | link tree day src dst f hfile habsent =>
      obtain rfl : tree = .quarantine := ho
      refine h.of_same hvital (fun p g hg => ?_) (fun p htree => ?_) rfl rfl
      · by_cases hp : p = ⟨.quarantine, day, dst⟩
        · rw [hp, SpoolState.file_put_self] at hg
          obtain rfl := Option.some.inj hg
          exact h.inodes _ _ hfile
        · rw [SpoolState.file_put_ne u f hp] at hg
          exact h.inodes p g hg
      · refine SpoolState.file_put_ne u f fun hp => ?_
        rw [hp] at htree
        cases htree
  | create p content written habsent _ =>
      have hne : ∀ q, q ≠ p → (u.create p written).file q = u.file q :=
        fun q hq => SpoolState.file_put_ne u _ hq
      have hself : (u.create p written).file p = some ⟨written, u.nextInode, .private⟩ :=
        SpoolState.file_put_self u p _
      have hkept : ∀ q, Guarded s vital q → (u.create p written).file q = u.file q := by
        intro q hq
        refine hne q fun hqp => ?_
        have hpresent := h.present hvital hq
        rw [hqp, habsent] at hpresent
        cases hpresent
      refine h.of_files (fun q f hf => ?_) hkept (fun q f hq hu name g hname hg => ?_)
        (fun q htree hname => ?_) rfl rfl
      · show f.inode < u.nextInode + 1
        by_cases hq : q = p
        · rw [hq, hself] at hf
          rw [← Option.some.inj hf]
          exact Nat.lt_succ_self _
        · rw [hne q hq] at hf
          exact Nat.lt_succ_of_lt (h.inodes q f hf)
      · -- a new file has an inode of its own
        by_cases hnew : (⟨q.tree, q.day, name⟩ : Path) = p
        · rw [hnew, hself] at hg
          rw [← Option.some.inj hg]
          exact fun hinode => absurd (h.inodes q f hu.1) (by rw [← hinode]; exact Nat.lt_irrefl _)
        · rw [hne _ hnew] at hg
          exact hu.2 name g hname hg
      · refine Or.inl (hne q fun hqp => ?_)
        rw [hqp] at htree hname
        exact hname (ho htree)
  | unlink p f hfile =>
      have hne : ∀ q, q ≠ p → (u.remove p).file q = u.file q :=
        fun q hq => SpoolState.file_remove_ne u hq
      have hold : ∀ q g, (u.remove p).file q = some g → u.file q = some g := by
        intro q g hg
        by_cases hq : q = p
        · rw [hq, SpoolState.file_remove_self] at hg
          cases hg
        · rwa [hne q hq] at hg
      refine h.of_files (fun q g hg => h.inodes q g (hold q g hg)) (fun q hq => ?_)
        (fun q g hq hu name g' hname hg' => hu.2 name g' hname (hold _ g' hg'))
        (fun q _ _ => ?_) rfl rfl
      · refine hne q ?_
        rintro rfl
        have htree : q.tree = .pending := by
          rcases hq with hq | hq
          · exact hq.1
          · exact hvital.tree q hq
        exact ho htree hq
      · by_cases hq : q = p
        · rw [hq]
          exact Or.inr (SpoolState.file_remove_self u p)
        · exact Or.inl (hne q hq)
  | rename tree day src dst replace f hfile hdst =>
      cases tree with
      | quarantine =>
          refine h.of_same hvital (fun q g hg => ?_) (fun q htree => ?_) rfl rfl
          · by_cases hq : q = ⟨.quarantine, day, dst⟩
            · rw [hq, SpoolState.file_move_dst] at hg
              obtain rfl := Option.some.inj hg
              exact h.inodes _ _ hfile
            · by_cases hq' : q = ⟨.quarantine, day, src⟩
              · have hsrc : src ≠ dst := by
                  rintro rfl
                  exact hq hq'
                rw [hq', SpoolState.file_move_src u _ _ f hsrc] at hg
                cases hg
              · rw [SpoolState.file_move_ne u _ _ f hq' hq] at hg
                exact h.inodes q g hg
          · refine SpoolState.file_move_ne u _ _ f ?_ ?_
            · rintro rfl
              cases htree
            · rintro rfl
              cases htree
      | pending =>
          obtain ⟨hsrc, hdst', hstage⟩ := ho rfl
          have hne : ∀ q, q ≠ ⟨.pending, day, src⟩ → q ≠ ⟨.pending, day, dst⟩ →
              (u.move .pending day src dst f).file q = u.file q :=
            fun q hq hq' => SpoolState.file_move_ne u _ _ f hq hq'
          -- a file after the rename is one before it, of another name or of the source
          have hold : ∀ q g, (u.move .pending day src dst f).file q = some g →
              u.file q = some g ∨ (q = ⟨.pending, day, dst⟩ ∧ g = f) := by
            intro q g hg
            by_cases hq : q = ⟨.pending, day, dst⟩
            · rw [hq, SpoolState.file_move_dst] at hg
              exact Or.inr ⟨hq, (Option.some.inj hg).symm⟩
            · by_cases hq' : q = ⟨.pending, day, src⟩
              · have hsrc : src ≠ dst := by
                  rintro rfl
                  exact hq hq'
                rw [hq', SpoolState.file_move_src u _ _ f hsrc] at hg
                cases hg
              · rw [hne q hq' hq] at hg
                exact Or.inl hg
          have hguarded : ∀ q, Guarded s vital q → q ≠ ⟨.pending, day, src⟩ := by
            rintro q hq rfl
            exact hsrc hq
          refine h.of_files (fun q g hg => ?_) (fun q hq => ?_)
            (fun q g hq hu name g' hname hg' => ?_) (fun q htree hname => ?_) rfl rfl
          · rcases hold q g hg with hg | ⟨-, rfl⟩
            · exact h.inodes q g hg
            · exact h.inodes _ _ hfile
          · refine hne q (hguarded q hq) ?_
            rintro rfl
            exact hdst' hq
          · rcases hold _ g' hg' with hg' | ⟨hpath, rfl⟩
            · exact hu.2 name g' hname hg'
            · -- the moved file was not a second name of the vital one
              obtain ⟨htree, hday, -⟩ := Path.mk.inj hpath
              refine hu.2 src g' ?_ ?_
              · rintro rfl
                refine hguarded q (Or.inr hq) ?_
                cases q
                simp only at htree hday
                rw [htree, hday]
              · rw [htree, hday]
                exact hfile
          · by_cases hq : q = ⟨.pending, day, src⟩
            · by_cases hsame : src = dst
              · exfalso
                rw [hq] at hname
                exact hname (hsame ▸ hstage)
              · rw [hq]
                exact Or.inr (SpoolState.file_move_src u _ _ f hsame)
            · refine Or.inl (hne q hq ?_)
              rintro rfl
              exact hname hstage
  | _ => exact ho.elim

/-- **An orphan's row** joins the ledger. -/
theorem Lists.insert {t t' : Ledger} {r : SegmentRecord} (h : Lists t rs)
    (hinsert : t.insertSegment r = some t') : Lists t' (rs ++ [r]) := by
  obtain ⟨hnone, hsegments, -⟩ := Ledger.insertSegment_eq hinsert
  have hself : SameSegment (t'.record r.batchId r.toSegmentRow) r :=
    ⟨rfl, rfl, fun e => Ledger.mem_loadExporters_map.trans (h.sound.required_insert hinsert)⟩
  -- the other rows are as they were
  have hother : ∀ b row, b ≠ r.batchId → SameSegment (t'.record b row) (t.record b row) := by
    intro b row hb
    refine ⟨rfl, rfl, fun e => ?_⟩
    refine Ledger.mem_loadExporters_map.trans
      (Iff.trans ?_ Ledger.mem_loadExporters_map.symm)
    rw [Ledger.insertSegment_required hinsert]
    exact or_iff_right fun hnew => hb hnew.1.symm
  have hlookup : ∀ b, b ≠ r.batchId → t'.segments.lookup b = t.segments.lookup b := by
    intro b hb
    rw [hsegments, AList.lookup_insert_ne hb]
  refine ⟨h.sound.insertSegment hinsert, fun r' hr' => ?_, fun r₀ hr₀ => ?_⟩
  · obtain ⟨hrow, hrecord⟩ := Ledger.mem_records.mp hr'
    by_cases hb : r'.batchId = r.batchId
    · refine ⟨r, List.mem_append_right _ (List.mem_singleton_self r), ?_⟩
      rw [hb, hsegments, AList.lookup_insert] at hrow
      rw [hrecord, hb, ← Option.some.inj hrow]
      exact hself
    · rw [hlookup _ hb] at hrow
      obtain ⟨r₀, hr₀, hsame⟩ := h.only (t.record r'.batchId r'.toSegmentRow)
        (Ledger.mem_records.mpr ⟨hrow, rfl⟩)
      refine ⟨r₀, List.mem_append_left _ hr₀, ?_⟩
      rw [hrecord]
      exact (hother _ _ hb).trans hsame
  · rcases List.mem_append.mp hr₀ with hr₀ | hr₀
    · obtain ⟨r', hr', hsame⟩ := h.all r₀ hr₀
      obtain ⟨hrow, hrecord⟩ := Ledger.mem_records.mp hr'
      have hb : r'.batchId ≠ r.batchId := by
        intro hb
        rw [hb, hnone] at hrow
        cases hrow
      refine ⟨t'.record r'.batchId r'.toSegmentRow, Ledger.mem_records.mpr ⟨?_, rfl⟩, ?_⟩
      · exact (hlookup _ hb).trans hrow
      · rw [hrecord] at hsame
        exact (hother _ _ hb).trans hsame
    · obtain rfl := List.mem_singleton.mp hr₀
      refine ⟨_, Ledger.mem_records.mpr ⟨?_, rfl⟩, hself⟩
      rw [hsegments]
      exact AList.lookup_insert _

end Step

/-! ## Programs that spare the guarded leaves -/

section Programs

variable {s u : SpoolState} {vital : Path → Prop} {rs : List SegmentRecord} {α β : Type}
  {fmt : SegmentFormat} {day : Day} {K : Path → Prop}

/-- What only observes spares every path. -/
theorem spares_of_observes {o : SpoolOp} (h : o.observes) : Spares K o := by
  cases o <;> trivial

theorem spares_of_copyOp {o : SpoolOp} (h : CopyOp day o) : Spares K o := by
  cases o with
  | createExcl p content =>
      intro htree
      rw [h.1] at htree
      cases htree
  | unlink p =>
      intro htree
      rw [h.1] at htree
      cases htree
  | link tree d src dst => exact h.1
  | readFile | binding | syncDir => trivial
  | _ => exact h.elim

/-- A program of sparing operations leaves the vital files spared. -/
theorem atRest_spared {p : SpoolProg α} (hvital : Vital s vital)
    (hp : p.Only (Spares (Guarded s vital))) (h : Spared s vital rs u) :
    AtRest p (fun _ u => Spared s vital rs u) u := by
  refine Safe.of_only hp (I := Spared s vital rs) ?_ ?_ h
  · rintro t _ ht rfl
    exact ht
  · exact fun t o c r t' ho ht hstep =>
      ⟨trivial, ht.step hvital ho (SpoolState.perform_change (rest_perform hstep))⟩

/-- A part that spares the guarded leaves, and then the rest. -/
theorem atRest_seq {p : SpoolProg α} {f : α → SpoolProg β} {Q : β → SpoolState → Prop}
    (hvital : Vital s vital) (hp : p.Only (Spares (Guarded s vital))) (h : Spared s vital rs u)
    (hf : ∀ a u, Spared s vital rs u → AtRest (f a) Q u) : AtRest (p >>= f) Q u :=
  Safe.seq (atRest_spared hvital hp h) hf

/-- One operation that spares the guarded leaves, and then the rest. -/
theorem atRest_call {o : SpoolOp} {f : o.Resp → SpoolProg β} {Q : β → SpoolState → Prop}
    (hvital : Vital s vital) (ho : Spares (Guarded s vital) o) (h : Spared s vital rs u)
    (hf : ∀ r u, Spared s vital rs u → AtRest (f r) Q u) :
    AtRest (call (Γ := spoolSignature) o >>= f) Q u :=
  atRest_seq hvital (.call ho fun _ => trivial) h hf

theorem cleanStaging_spares {cleanups : List (Day × String × Snapshot)}
    (hK : ∀ c ∈ cleanups, ¬ K ⟨.pending, c.1, c.2.1⟩) :
    (cleanStaging cleanups).Only (Spares K) := by
  induction cleanups with
  | nil => trivial
  | cons c rest ih =>
      obtain ⟨d, name, snapshot⟩ := c
      unfold cleanStaging
      refine Only.bind ?_ fun cleaned => ?_
      · unfold cleanupStaleReservation
        refine .call trivial fun live => ?_
        split
        · trivial
        · refine .call trivial fun r => ?_
          rcases r with e | f
          · trivial
          · dsimp only
            split
            · trivial
            · refine .call (fun _ => hK (d, name, snapshot) List.mem_cons_self) fun unlinked => ?_
              split
              · trivial
              · exact .call trivial fun synced => .call trivial fun bound => trivial
      · split
        · exact ih fun c hc => hK c (List.mem_cons_of_mem _ hc)
        · trivial

theorem certifyLiveTarget_spares {candidate digest : String} :
    (certifyLiveTarget fmt day candidate digest).Only (Spares K) :=
  certifyLiveTarget_only.mono fun _ ho => spares_of_observes (observes_of_lookOp ho)

/-- Unlinking a retired name spares every other path. -/
theorem unlinkRetired_spares {retirement digest : String} {placed : PlacedCopy}
    (hK : ¬ K ⟨.pending, day, retirement⟩) :
    (unlinkRetired fmt day retirement placed digest).Only (Spares K) := by
  unfold unlinkRetired
  refine certifyLiveTarget_spares.bind fun target => ?_
  split
  · trivial
  · refine .call trivial fun pendingHolds => ?_
    split
    · trivial
    · refine .call trivial fun quarantineHolds => ?_
      split
      · trivial
      · refine .call (fun _ => hK) fun unlinked => ?_
        split
        · trivial
        · refine .call trivial fun synced => ?_
          split
          · trivial
          · exact .call trivial fun bound => certifyLiveTarget_spares.bind fun _ => trivial

theorem cleanupEmptyReservation_spares {retirement : String} {reserved : Nat}
    (hK : ¬ K ⟨.pending, day, retirement⟩) :
    (cleanupEmptyReservation day retirement reserved).Only (Spares K) := by
  unfold cleanupEmptyReservation
  refine .call trivial fun r => ?_
  rcases r with e | f
  · trivial
  · dsimp only
    split
    · trivial
    · refine .call trivial fun live => ?_
      split
      · trivial
      · refine .call (fun _ => hK) fun unlinked => ?_
        split
        · exact .call trivial fun _ => trivial
        · trivial

theorem rereadSource_spares {name digest : String} {snapshot : Snapshot} :
    (rereadSource fmt day name snapshot digest).Only (Spares K) := by
  unfold rereadSource
  refine .call trivial fun live => ?_
  split
  · trivial
  · refine .call trivial fun r => ?_
    rcases r with e | f
    · trivial
    · dsimp only
      split
      · trivial
      · exact .call trivial fun _ => .call trivial fun _ => trivial

/-- **The retirement of a source** finds its retirement name free, and so replaces nothing. -/
theorem retireSource_spared {name retirement digest : String} {snapshot : Snapshot}
    {placed : PlacedCopy} (hvital : Vital s vital) (h : Spared s vital rs u)
    (hname : ¬ Guarded s vital ⟨.pending, day, name⟩)
    (hstage : stagePrefix.toList <+: retirement.toList) :
    AtRest (retireSource fmt day name retirement snapshot placed digest)
      (fun _ u => Spared s vital rs u) u := by
  unfold retireSource
  refine atRest_op fun c r u' hstep => ?_
  have hstep := rest_perform hstep
  have hspares : Spares (Guarded s vital) (.createExcl ⟨.pending, day, retirement⟩ []) :=
    fun _ => hstage
  have h' := h.step hvital hspares (SpoolState.perform_change hstep)
  rcases r with _ | _ | _
  · have hfree : ¬ Guarded s vital ⟨.pending, day, retirement⟩ := by
      intro hguarded
      have hpresent := h.present hvital hguarded
      rw [SpoolState.perform_createExcl_absent hstep] at hpresent
      cases hpresent
    refine atRest_spared hvital (.call trivial fun r => ?_) h'
    rcases r with e | reserved
    · trivial
    · refine .call (fun _ => ⟨hname, hfree, hstage⟩) fun renamed => ?_
      rcases renamed with _ | _ | _ | _
      · refine .call trivial fun synced => ?_
        split
        · trivial
        · refine Only.bind (certifyTarget_only.mono fun _ ho =>
            spares_of_observes (observes_of_lookOp ho)) fun retired => ?_
          split
          · trivial
          · exact unlinkRetired_spares hfree
      all_goals exact (cleanupEmptyReservation_spares hfree).bind fun _ => trivial
  · exact h'
  · exact h'

/-- Removing a source that nothing guards leaves the vital files spared. -/
theorem finalizeSourceRemoval_spared {name digest : String} {snapshot : Snapshot}
    {placed : PlacedCopy} (hvital : Vital s vital) (h : Spared s vital rs u)
    (hname : ¬ Guarded s vital ⟨.pending, day, name⟩) :
    AtRest (finalizeSourceRemoval fmt day name snapshot placed digest)
      (fun _ u => Spared s vital rs u) u := by
  unfold finalizeSourceRemoval
  refine atRest_call hvital trivial h fun live u h => ?_
  split
  · exact h
  · refine atRest_seq hvital certifyLiveTarget_spares h fun target u h => ?_
    split
    · exact h
    · refine atRest_call hvital trivial h fun quarantineHolds u h => ?_
      split
      · exact h
      · refine atRest_call hvital trivial h fun r u h => ?_
        rcases r with e | f
        · exact h
        · dsimp only
          split
          · exact h
          · refine atRest_call hvital trivial h fun bound u h => ?_
            split
            · exact h
            · split
              · exact atRest_spared hvital (unlinkRetired_spares hname) h
              · exact retireSource_spared hvital h hname (stagePrefix_retirementName _ _)

/-- **A quarantine move** of a leaf that is not guarded. -/
theorem moveToQuarantine_spared {name digest : String} {snapshot : Snapshot}
    (hvital : Vital s vital) (h : Spared s vital rs u)
    (hname : ¬ Guarded s vital ⟨.pending, day, name⟩) :
    AtRest (moveToQuarantine fmt day name snapshot digest) (fun _ u => Spared s vital rs u) u := by
  unfold moveToQuarantine
  refine atRest_call hvital trivial h fun opened u h => ?_
  split
  · exact h
  · refine atRest_seq hvital rereadSource_spares h fun content u h => ?_
    rcases content with _ | content
    · exact h
    · dsimp only
      split
      · exact h
      · refine atRest_seq hvital (placeCopy_only.mono fun _ => spares_of_copyOp) h
          fun placed u h => ?_
        rcases placed with copy | reason | _
        · dsimp only
          unfold finishMove
          refine Safe.seq (finalizeSourceRemoval_spared hvital h hname) fun outcome u h => ?_
          rcases outcome with _ | _ | _
          · exact h
          · exact h
          · dsimp only
            split
            · refine atRest_seq hvital ?_ h fun _ u h => h
              exact cleanupCandidate_only.mono fun _ => spares_of_copyOp
            · exact h
        · exact h
        · exact h

end Programs

/-! ## The mutations of a pass -/

section Mutations

variable {s u : SpoolState} {vital : Path → Prop} {rs : List SegmentRecord} {fmt : SegmentFormat}

/-- A shared file does not pass for a private one later in the pass. -/
theorem not_shared_of_private (h : Spared s vital rs u) {p : Path} {f : File}
    (hstat : u.stat p = some f) (hprivate : f.shape = .private) : ¬ Shared s p := by
  rintro ⟨htree, g, name, g', hg, hname, hg', hinode⟩
  have halone : Alone u p f := alone_of_stat hstat (by rw [hprivate]; decide)
    (by rw [hprivate]; decide)
  have hp : u.file p = s.file p := h.shared p ⟨htree, g, name, g', hg, hname, hg', hinode⟩
  have htwin : u.file ⟨p.tree, p.day, name⟩ = s.file ⟨p.tree, p.day, name⟩ :=
    h.shared _ (Shared.twin htree hg hname hg' hinode)
  rw [halone.1, hg] at hp
  obtain rfl := Option.some.inj hp
  exact halone.2 name g' hname (htwin.trans hg') hinode

/-- **A durable removal** takes no shared file: it looks at the leaf first. -/
theorem removeRegularFile_spared {p : Path} (hvital : Vital s vital) (h : Spared s vital rs u)
    (hp : ¬ vital p) : AtRest (removeRegularFile p) (fun _ u => Spared s vital rs u) u := by
  unfold removeRegularFile
  refine atRest_op fun c r u' hstep => ?_
  obtain ⟨rfl, hr⟩ := SpoolState.perform_readFile (rest_perform hstep)
  rcases r with e | f
  · exact h
  · have hstat : u'.stat p = some f := by
      rcases hr with hr | hr
      · unfold SpoolState.opened at hr
        cases hstat : u'.stat p with
        | none => rw [hstat] at hr; cases hr
        | some g => rw [hstat] at hr; rw [Except.ok.inj hr]
      · cases hr
    dsimp only
    split
    · exact h
    · rename_i hshape
      have hguarded : ¬ Guarded s vital p :=
        not_or.mpr ⟨not_shared_of_private h hstat (not_not.mp hshape), hp⟩
      refine atRest_spared hvital (.call (fun _ => hguarded) fun unlinked => ?_) h
      split
      · trivial
      · exact .call trivial fun _ => trivial

theorem deleteTombstoneFenced_spares {b : String} {day : Day} {K : Path → Prop} :
    (deleteTombstoneFenced b day).Only (Spares K) := by
  unfold deleteTombstoneFenced
  refine .call trivial fun fenced => ?_
  split
  · exact .call trivial fun _ => trivial
  · trivial

/-- **A retirement** removes nothing vital. -/
theorem completeRetirement_spared {day : Day} {b expected : String} (hvital : Vital s vital)
    (h : Spared s vital rs u) (hp : ¬ vital (segmentPath day b)) :
    AtRest (completeRetirement fmt day b expected) (fun _ u => Spared s vital rs u) u := by
  unfold completeRetirement
  refine atRest_seq hvital (rawSha256_only.mono fun _ => spares_of_observes) h
    fun digest u h => ?_
  split
  · exact atRest_seq hvital deleteTombstoneFenced_spares h fun _ u h => h
  · refine Safe.seq (removeRegularFile_spared hvital h hp) fun outcome u h => ?_
    rcases outcome with _ | _ | _
    · exact atRest_call hvital trivial h fun _ u h => h
    · exact h
    · exact h

/-- A ledger that lists other records, over the same files. -/
theorem Spared.setLedger {t : Ledger} {rs' : List SegmentRecord} (h : Spared s vital rs u)
    (ht : Lists t rs') : Spared s vital rs' (u.setLedger t) :=
  ⟨h.inodes, h.shared, h.vital, h.receding, ht⟩

/-- **The registrations** add their records to the ledger. -/
theorem registerOrphans_spared {orphans : List (Orphan fmt.Frame)} (h : Spared s vital rs u) :
    AtRest (registerOrphans orphans) (fun registered u => registered = true →
      Spared s vital (rs ++ orphans.map reconciledRecord) u) u := by
  induction orphans generalizing rs u with
  | nil =>
      intro _
      rw [List.map_nil, List.append_nil]
      exact h
  | cons orphan rest ih =>
      unfold registerOrphans
      refine atRest_op fun c r u' hstep => ?_
      split
      · rename_i hinserted
        obtain rfl : r = true := hinserted
        obtain ⟨t, hinsert, rfl⟩ := SpoolState.perform_insertSegment (rest_perform hstep)
        have hrest := ih (h.setLedger (h.lists.insert hinsert))
        rw [List.append_assoc, List.singleton_append, ← List.map_cons] at hrest
        exact hrest
      · exact fun hfalse => Bool.noConfusion hfalse

/-- **The mutations of a pass** spare what it must not move. -/
theorem applyScan_spared {scan : Scan fmt.Frame} (hvital : Vital s vital) (h : Spared s vital rs u)
    (hquarantines : ∀ q ∈ scan.quarantines, ¬ Guarded s vital ⟨.pending, q.day, q.name⟩)
    (hretirements : ∀ x ∈ scan.retirements, ¬ vital (segmentPath x.1 x.2.1)) :
    AtRest (applyScan fmt scan) (fun result u => ∀ report, result = .ok report →
      Spared s vital (rs ++ scan.registrations.map reconciledRecord) u ∧
        report.registered = scan.registrations.map (fun o => (o.batchId, o.day)) ∧
        report.healthy = scan.healthy) u := by
  unfold applyScan
  refine Safe.seq (registerOrphans_spared h) fun registered u hregistered => ?_
  cases registered with
  | false =>
      rintro report hreport
      cases hreport
  | true =>
      have h := hregistered rfl
      generalize rs ++ scan.registrations.map reconciledRecord = rs' at h
      refine Safe.seq (Safe.foldUntil (I := fun _ u => Spared s vital rs' u) ?_ h)
        fun failures u h => ?_
      · intro x hx failures u h
        refine Safe.seq (completeRetirement_spared hvital h (hretirements x hx))
          fun detail u h => ?_
        cases detail <;> exact h
      refine Safe.seq (Safe.foldUntil (I := fun _ u => Spared s vital rs' u) ?_ h)
        fun failures u h => ?_
      · intro x _ failures u h
        refine atRest_seq hvital deleteTombstoneFenced_spares h fun cleared u h => ?_
        split <;> exact h
      refine Safe.seq (Safe.foldUntil (I := fun _ u => Spared s vital rs' u) ?_ h)
        fun result u h => ?_
      · intro q hq result u h
        refine Safe.seq (moveToQuarantine_spared hvital h (hquarantines q hq))
          fun outcome u h => ?_
        cases outcome <;> exact h
      rintro report hreport
      obtain rfl := Except.ok.inj hreport
      exact ⟨h, rfl, rfl⟩

/-! ## The pass -/

/-- The leaves a pass must leave: the files that agree with their record, and the orphans it
registers. -/
def VitalOf (fmt : SegmentFormat) (s : SpoolState) (scan : Scan fmt.Frame) (p : Path) : Prop :=
  (∃ record ∈ s.ledger.records, accepts fmt s (named record) record = true ∧
    p = (named record).path) ∨
  ∃ o ∈ scan.registrations, p = segmentPath o.day o.batchId

/-- What a trusted read accepts is a file of one name. -/
theorem alone_of_trusted {p : Path} {parsed : ParsedSegment fmt.Frame}
    (h : Retention.trustedSegment fmt s p = .ok parsed) : ∃ f, Alone s p f := by
  unfold Retention.trustedSegment at h
  split at h
  · cases h
  · rename_i f hstat
    split at h
    · cases h
    · rename_i hspecial
      split at h
      · cases h
      · rename_i hshape
        refine ⟨f, alone_of_stat hstat ?_ hspecial⟩
        rw [not_not.mp hshape]
        decide

theorem path_inj {c c' : Candidate} (h : c.path = c'.path) : c = c' := by
  obtain ⟨-, hday, hname⟩ := Path.mk.inj h
  cases c
  cases c'
  simp only at hday hname
  rw [hday, segmentName_injective hname]

section Vital

variable {scan : Scan fmt.Frame} {done : List Candidate}

/-- After a complete classification the files that must stay are trusted and private. -/
theorem vital_vitalOf (h : Classified fmt s done scan) : Vital s (VitalOf fmt s scan) := by
  have hread : ∀ p, VitalOf fmt s scan p → ∃ c : Candidate, p = c.path ∧
      matchesBatchId c.batchId = true ∧
      ∃ parsed, Retention.trustedSegment fmt s c.path = .ok parsed := by
    rintro p (⟨record, -, haccepts, rfl⟩ | ⟨o, ho, rfl⟩)
    · refine ⟨named record, rfl, (accepts_true haccepts).2.1, ?_⟩
      unfold accepts at haccepts
      split at haccepts
      · rename_i parsed hread
        exact ⟨parsed, hread⟩
      · cases haccepts
    · obtain ⟨-, -, -, hadopt⟩ := h.registrations o ho
      refine ⟨⟨o.day, o.batchId⟩, rfl, ?_, o.parsed, hadopt.read⟩
      rw [← hadopt.batchId]
      exact o.parsed.header.matchesBatchId
  refine ⟨fun p hp => ?_, fun p hp => ?_, fun p hp => ?_⟩
  · obtain ⟨c, rfl, -, parsed, hparsed⟩ := hread p hp
    exact alone_of_trusted hparsed
  · obtain ⟨c, rfl, -⟩ := hread p hp
    rfl
  · obtain ⟨c, rfl, hid, -⟩ := hread p hp
    exact stagePrefix_not_prefix hid

/-- What was queued is not guarded. -/
theorem not_guarded_of_quarantined (h : Classified fmt s done scan) {q : Subject}
    (hq : q ∈ scan.quarantines) : ¬ Guarded s (VitalOf fmt s scan) ⟨.pending, q.day, q.name⟩ := by
  obtain ⟨hunshared, hname⟩ := h.quarantines q hq
  refine not_or.mpr ⟨not_shared_of_unshared hunshared, fun hvital => ?_⟩
  rcases hname with hstage | ⟨c, hpath, hrefused⟩
  · exact (vital_vitalOf h).name _ hvital hstage
  · rw [hpath] at hvital
    rcases hvital with ⟨record, hrecord, haccepts, hc⟩ | ⟨o, ho, hc⟩
    · obtain rfl := path_inj hc
      rw [hrefused.record record (recordFor_of_mem hrecord)] at haccepts
      cases haccepts
    · have hc : c = ⟨o.day, o.batchId⟩ := path_inj hc
      subst hc
      obtain ⟨-, hsingle, hnone, hadopt⟩ := h.registrations o ho
      exact hrefused.orphan hsingle hnone o.parsed hadopt

/-- Staging that is cleaned up is guarded by nothing. -/
theorem not_guarded_of_cleaned (h : Classified fmt s done scan) {x : Day × String × Snapshot}
    (hx : x ∈ scan.cleanups) : ¬ Guarded s (VitalOf fmt s scan) ⟨.pending, x.1, x.2.1⟩ := by
  obtain ⟨hunshared, hstage⟩ := h.cleanups x hx
  exact not_or.mpr ⟨not_shared_of_unshared hunshared,
    fun hvital => (vital_vitalOf h).name _ hvital hstage⟩

/-- A segment whose retirement is finished is not vital. -/
theorem not_vital_of_retired (h : Classified fmt s done scan) {x : Day × String × String}
    (hx : x ∈ scan.retirements) : ¬ VitalOf fmt s scan (segmentPath x.1 x.2.1) := by
  obtain ⟨-, hnone⟩ := h.retirements x hx
  rintro (⟨record, hrecord, -, hpath⟩ | ⟨o, ho, hpath⟩)
  · obtain ⟨-, -, hname⟩ := Path.mk.inj hpath
    have hb : x.2.1 = record.batchId := segmentName_injective hname
    rw [hb, recordFor_of_mem hrecord] at hnone
    cases hnone
  · obtain ⟨-, -, hname⟩ := Path.mk.inj hpath
    exact h.apart o ho x hx (segmentName_injective hname)

end Vital

/-- What a complete pass has decided and left. -/
structure Completed (fmt : SegmentFormat) (s : SpoolState) (report : ReconciliationReport)
    (scan : Scan fmt.Frame) (u : SpoolState) : Prop where
  classified : Classified fmt s (candidates s) scan
  healthy : report.healthy = (healthyIds fmt s).length
  registered : report.registered = scan.registrations.map fun o => (o.batchId, o.day)
  spared : Spared s (VitalOf fmt s scan)
    (s.ledger.records ++ scan.registrations.map reconciledRecord) u

/-- **A pass over a tree at rest** that reports a complete and safe outcome. -/
theorem reconcilePass_spared (hsound : s.ledger.Sound)
    (hinodes : ∀ p f, s.file p = some f → f.inode < s.nextInode) :
    AtRest (reconcilePass fmt) (fun result u => ∀ report, result = .ok report →
      report.complete = true → report.recoverySafe = true →
      ∃ scan, Completed fmt s report scan u) s := by
  unfold reconcilePass
  refine atRest_op fun c r s' hstep => ?_
  obtain ⟨rfl, rfl | rfl⟩ := SpoolState.perform_readLedger (rest_perform hstep)
  · refine atRest_op fun c r s'' hstep => ?_
    obtain ⟨rfl, -⟩ := SpoolState.perform_readRetirements (rest_perform hstep)
    rcases r with _ | retirements
    · rintro report hreport
      cases hreport
    · refine atRest_op fun c r s' hstep => ?_
      obtain ⟨rfl, rfl | rfl⟩ := SpoolState.perform_listPending (rest_perform hstep)
      · refine Safe.seq classify_told fun scan u hscan => ?_
        obtain ⟨rfl, hclassified, hhealthy⟩ := hscan
        have hvital := vital_vitalOf hclassified
        split
        · rintro report hreport hcomplete
          obtain rfl := Except.ok.inj hreport
          cases hcomplete
        · have hstart : Spared u (VitalOf fmt u scan) u.ledger.records u :=
            Spared.start hsound hinodes
          refine atRest_seq hvital (cleanStaging_spares fun x hx =>
            not_guarded_of_cleaned hclassified hx) hstart fun stuck u' h => ?_
          rcases stuck with _ | day
          · refine (applyScan_spared hvital h (fun q hq => not_guarded_of_quarantined hclassified hq)
              (fun x hx => not_vital_of_retired hclassified hx)).mono ?_
            intro result t ht report hreport _ _
            obtain ⟨hspared, hregistered, hcount⟩ := ht report hreport
            exact ⟨scan, hclassified, hcount.trans hhealthy, hregistered, hspared⟩
          · rintro report hreport _ hsafe
            obtain rfl := Except.ok.inj hreport
            cases hsafe
      · rintro report hreport hcomplete
        obtain rfl := Except.ok.inj hreport
        cases hcomplete
  · rintro report hreport
    cases hreport

end Mutations

end Milhouse.Verify
