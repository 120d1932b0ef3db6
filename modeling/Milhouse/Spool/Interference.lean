import Milhouse.Spool.Change

/-!
# Milhouse — what may happen to the store while a section runs

A section (a commit, a reconciliation pass, a retention pass) shares the store with deliveries and
cursor advances, and with foreign processes that put files of their own into the spool. None of
them takes a file away, changes one, or writes a segment row: `Calm s s'` says so, and is the rely
of every argument about a section.

* `Calm.all` — what every listing shows, and more files cannot falsify, every listing still shows;
* **`calm_of_delivery`**, **`calm_plant`**, **`calm_advanceCursor`** — what the others do is calm.
-/

namespace Milhouse

open Disk

/-- A property of listings that more files cannot falsify. -/
def Growing (P : Listing String File → Prop) : Prop :=
  ∀ l l' : Listing String File, (∀ n f, l.lookup n = some f → l'.lookup n = some f) → P l → P l'

/-- Files were only added, segment rows not touched, and the history only extended. -/
structure Calm (s s' : SpoolState) : Prop where
  stat : ∀ p f, s.stat p = some f → s'.stat p = some f
  current : ∀ tree day n f, (s.dir tree day).current.lookup n = some f →
    (s'.dir tree day).current.lookup n = some f
  listings : ∀ tree day, ∀ l ∈ (s'.dir tree day).listings, l ∈ (s.dir tree day).listings ∨
    ∀ n f, (s.dir tree day).current.lookup n = some f → l.lookup n = some f
  segments : s'.ledger.segments = s.ledger.segments
  required : ∀ b e, s'.ledger.required b e ↔ s.ledger.required b e
  retirements : s'.ledger.retirements = s.ledger.retirements
  history : s.history <+: s'.history

namespace Calm

variable {s s' s'' : SpoolState}

theorem refl (s : SpoolState) : Calm s s where
  stat _ _ h := h
  current _ _ _ _ h := h
  listings _ _ _ h := Or.inl h
  segments := rfl
  required _ _ := Iff.rfl
  retirements := rfl
  history := List.prefix_refl _

theorem trans (h : Calm s s') (h' : Calm s' s'') : Calm s s'' where
  stat p f hf := h'.stat p f (h.stat p f hf)
  current tree day n f hf := h'.current tree day n f (h.current tree day n f hf)
  listings tree day l hl := by
    rcases h'.listings tree day l hl with hl | hl
    · exact h.listings tree day l hl
    · exact Or.inr fun n f hf => hl n f (h.current tree day n f hf)
  segments := h'.segments.trans h.segments
  required b e := (h'.required b e).trans (h.required b e)
  retirements := h'.retirements.trans h.retirements
  history := h.history.trans h'.history

theorem file (h : Calm s s') {p : Path} {f : File} (hf : s.file p = some f) :
    s'.file p = some f := h.current _ _ _ _ hf

/-- **What every listing shows and more files cannot falsify, every listing still shows.** -/
theorem all (h : Calm s s') {tree : Tree} {day : Day} {P : Listing String File → Prop}
    (hP : Growing P) (hall : (s.dir tree day).All P) : (s'.dir tree day).All P := by
  intro l hl
  rcases h.listings tree day l hl with hl | hl
  · exact hall l hl
  · exact hP _ _ hl hall.current

theorem sound (h : Calm s s') (hsound : s.ledger.Sound) : s'.ledger.Sound := by
  intro b e hreq
  rw [h.segments]
  exact hsound b e ((h.required b e).mp hreq)

/-- Where directories and segment rows are the same, nothing happened. -/
theorem of_same (hdirs : s'.dirs = s.dirs) (hsegments : s'.ledger.segments = s.ledger.segments)
    (hrequired : ∀ b e, s'.ledger.required b e ↔ s.ledger.required b e)
    (hretirements : s'.ledger.retirements = s.ledger.retirements)
    (hhistory : s.history <+: s'.history) : Calm s s' := by
  have hdir : ∀ tree day, s'.dir tree day = s.dir tree day := by
    intro tree day
    unfold SpoolState.dir
    rw [hdirs]
  refine ⟨fun p f hf => ?_, fun tree day n f hf => ?_, fun tree day l hl => Or.inl ?_, hsegments,
    hrequired, hretirements, hhistory⟩
  · rw [SpoolState.stat_congr hdirs]; exact hf
  · rw [hdir]; exact hf
  · rw [hdir] at hl; exact hl

end Calm

section Others

variable {s s' : SpoolState}

/-- The operations of a delivery. -/
def SpoolOp.delivers : SpoolOp → Prop
  | .readRecord _ | .export .. | .advanceStatus .. => True
  | .note (.attempted ..) => True
  | _ => False

/-- **A delivery is calm.** -/
theorem calm_of_delivery {o : SpoolOp} (ho : o.delivers) (h : SpoolState.Change s o s') :
    Calm s s' := by
  cases h with
  | same => exact .refl s
  | handed r e frames now ok =>
      exact .of_same rfl rfl (fun _ _ => Iff.rfl) rfl (List.prefix_append _ _)
  | note e => exact .of_same rfl rfl (fun _ _ => Iff.rfl) rfl (List.prefix_append _ _)
  | status b e status =>
      exact .of_same rfl Ledger.advanceStatus_tables.1
        (fun _ _ => Ledger.advanceStatus_required) Ledger.advanceStatus_tables.2.1
        (List.prefix_refl _)
  | _ => exact ho.elim

/-- Reading is calm. -/
theorem calm_of_observes {o : SpoolOp} (ho : o.observes) (h : SpoolState.Change s o s') :
    Calm s s' := by
  cases h with
  | same => exact .refl s
  | unreadable p => exact .of_same rfl rfl (fun _ _ => Iff.rfl) rfl (List.prefix_append _ _)
  | _ => exact ho.elim

/-- **A cursor advance is calm.** -/
theorem calm_advanceCursor {t : Ledger} {source position b : String} {now : Stamp} {revision : Nat}
    (h : s.ledger.advanceCursor source position b now revision = .ok t) :
    Calm s (s.setLedger t) := by
  obtain ⟨hsegments, hexporters, hretirements⟩ := Ledger.advanceCursor_tables h
  refine .of_same rfl hsegments (fun b e => ?_) hretirements (List.prefix_refl _)
  unfold Ledger.required
  rw [SpoolState.ledger_setLedger, hexporters]

/-- The inode is no file's of the directory. -/
def SpoolState.freshInode (s : SpoolState) (p : Path) (inode : Nat) : Prop :=
  ∀ e ∈ (s.dir p.tree p.day).current.entries, e.2.inode ≠ inode

/-- **A new foreign file is calm.** -/
theorem calm_plant {p : Path} {f : File} (habsent : s.file p = none)
    (hinode : s.freshInode p f.inode) : Calm s (s.put p f) := by
  -- the names that were there still show their files
  have hkeep : ∀ n g, (s.dir p.tree p.day).current.lookup n = some g →
      ((s.dir p.tree p.day).current.insert p.name f).lookup n = some g := by
    intro n g hg
    rw [AList.lookup_insert_ne, hg]
    rintro rfl
    rw [SpoolState.file, hg] at habsent
    cases habsent
  have hcurrent : ∀ tree day n g, (s.dir tree day).current.lookup n = some g →
      ((s.put p f).dir tree day).current.lookup n = some g := by
    intro tree day n g hg
    rw [SpoolState.dir_put]
    split
    · rename_i hd
      obtain ⟨rfl, rfl⟩ := Prod.mk.inj hd
      exact hkeep n g hg
    · exact hg
  refine ⟨fun q g hg => ?_, hcurrent, fun tree day l hl => ?_, rfl, fun _ _ => Iff.rfl,
    rfl, List.prefix_refl _⟩
  · -- a new inode is no second name of an existing file
    obtain ⟨x, hx, hg⟩ := Option.map_eq_some_iff.mp hg
    have hx' : (s.put p f).file q = some x := hcurrent _ _ _ _ hx
    rw [SpoolState.stat, hx', Option.map_some, Option.some.injEq, ← hg]
    have hany : ((s.put p f).dir q.tree q.day).current.entries.any
        (fun e => decide (e.1 ≠ q.name) && decide (e.2.inode = x.inode)) =
        (s.dir q.tree q.day).current.entries.any
        (fun e => decide (e.1 ≠ q.name) && decide (e.2.inode = x.inode)) := by
      rw [SpoolState.dir_put]
      split
      · rename_i hd
        obtain ⟨htree, hday⟩ := Prod.mk.inj hd
        have hne : f.inode ≠ x.inode := by
          intro heq
          refine hinode ⟨q.name, x⟩ ?_ heq.symm
          rw [← htree, ← hday]
          exact AList.mem_lookup_iff.mp hx
        have hnot : p.name ∉ (s.dir q.tree q.day).current := by
          rw [← AList.lookup_eq_none, htree, hday]
          exact habsent
        rw [Dir.update_current, AList.entries_insert_of_notMem hnot]
        simp [hne]
      · rfl
    simp only [ne_eq] at hany ⊢
    rw [hany]
  · rw [SpoolState.dir_put] at hl
    split at hl
    · rename_i hd
      obtain ⟨rfl, rfl⟩ := Prod.mk.inj hd
      rcases List.mem_cons.mp hl with rfl | hl
      · exact Or.inr hkeep
      · exact Or.inl hl
    · exact Or.inl hl

end Others

end Milhouse
