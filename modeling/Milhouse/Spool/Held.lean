import Milhouse.Spool.Acknowledge

/-!
# Milhouse — published bytes are never lost before they expire

A publication that was not acknowledged has no row to protect it. Its bytes are `Held` all the same:
every listing a crash may leave of its pending day shows them under the segment's name or a
retirement name, or every listing of its quarantine day shows them outside the copy's staging name.
The promise ends with a prune at or after the expiry of every record of those bytes.

What may destroy bytes is an unlink, a truncation or a rename. Each is preceded by a proof, in the
code, that what it destroys is something else or is kept elsewhere: an empty reservation, a
temporary of its own, a source whose certified copy is durable, a file whose digest a prune retired.

* **`Held.change`** — an operation that spares the bytes keeps them held;
* `HeldBut x` — held without counting the quarantine leaf `x`, so that `x` may be cleaned up.
-/

namespace Milhouse

open Disk Interaction Interaction.Prog

/-- Bytes that were published as `batchId` of `day`. -/
structure Publication where
  day : Day
  batchId : String
  content : Bytes
  wellFormed : matchesBatchId batchId = true
  nonempty : content ≠ []

namespace Publication

variable (k : Publication)

/-- A name of the pending day that may stand for the publication. -/
def Names (n : String) : Prop := n = segmentName k.batchId ∨ retirePrefix.toList <+: n.toList

def InPending (l : Listing String File) : Prop :=
  ∃ n f, l.lookup n = some f ∧ f.content = k.content ∧ k.Names n

/-- The bytes are in a quarantine day outside the copy's staging name and `x`. -/
def InQuarantine (x : Option String) (l : Listing String File) : Prop :=
  ∃ n f, l.lookup n = some f ∧ f.content = k.content ∧ n ≠ quarantineStage ∧ some n ≠ x

end Publication

/-- Every listing a crash may leave has the bytes, and the current one has them outside `x`. -/
def HeldBut (k : Publication) (x : Option String) (s : SpoolState) : Prop :=
  (s.dir .pending k.day).All k.InPending ∨
    ((s.dir .quarantine k.day).All (k.InQuarantine none) ∧
      k.InQuarantine x (s.dir .quarantine k.day).current)

/-- Every listing a crash may leave has the bytes. -/
def Held (k : Publication) (s : SpoolState) : Prop := HeldBut k none s

section Facts

variable {k : Publication} {x : Option String} {s s' : SpoolState}

theorem growing_inPending : Growing k.InPending :=
  fun _ _ hgrow ⟨n, f, hf, h⟩ => ⟨n, f, hgrow n f hf, h⟩

theorem growing_inQuarantine : Growing (k.InQuarantine x) :=
  fun _ _ hgrow ⟨n, f, hf, h⟩ => ⟨n, f, hgrow n f hf, h⟩

theorem HeldBut.calm (h : HeldBut k x s) (hcalm : Calm s s') : HeldBut k x s' := by
  rcases h with h | ⟨h, n, f, hf, hrest⟩
  · exact Or.inl (hcalm.all growing_inPending h)
  · exact Or.inr ⟨hcalm.all growing_inQuarantine h, n, f, hcalm.current _ _ _ _ hf, hrest⟩

theorem HeldBut.held (h : HeldBut k x s) : Held k s := by
  rcases h with h | ⟨h, -⟩
  · exact Or.inl h
  · exact Or.inr ⟨h, h.current⟩

/-- A quarantine leaf that is not there can be left out. -/
theorem Held.but (h : Held k s) {n : String} (habsent : s.file ⟨.quarantine, k.day, n⟩ = none) :
    HeldBut k (some n) s := by
  rcases h with h | ⟨h, m, f, hf, hcontent, hstage, -⟩
  · exact Or.inl h
  · refine Or.inr ⟨h, m, f, hf, hcontent, hstage, ?_⟩
    intro heq
    obtain rfl := Option.some.inj heq
    rw [SpoolState.file, hf] at habsent
    cases habsent

/-- **A crash keeps published bytes held.** -/
theorem Held.crash (h : Held k s) (kept : Tree × Day → Nat) : Held k (s.crash kept) := by
  rcases h with h | ⟨h, -⟩
  · refine Or.inl ?_
    rw [SpoolState.dir_crash]
    exact h.settle _
  · have hall : ((s.crash kept).dir .quarantine k.day).All (k.InQuarantine none) := by
      rw [SpoolState.dir_crash]
      exact h.settle _
    exact Or.inr ⟨hall, hall.current⟩

/-- No name of `p` stands for the publication, in no listing. -/
def Unrelated (k : Publication) (p : Path) : Prop :=
  p.day ≠ k.day ∨ (p.tree = .pending ∧ ¬ k.Names p.name) ∨
    (p.tree = .quarantine ∧ p.name = quarantineStage)

/-- What is at `p` is not the published bytes. -/
def Spared (k : Publication) (x : Option String) (s : SpoolState) (p : Path) : Prop :=
  Unrelated k p ∨ (∀ f, s.file p = some f → f.content ≠ k.content) ∨
    (p.tree = .quarantine ∧ some p.name = x)

/-- An operation that destroys no publication's bytes. -/
def Spares (k : Publication) (x : Option String) (s : SpoolState) : SpoolOp → Prop
  | .unlink p | .truncate p => Spared k x s p
  | .rename tree day src dst replace =>
      (replace = true → Spared k x s ⟨tree, day, dst⟩) ∧
        (Spared k x s ⟨tree, day, src⟩ ∨
          (tree = .pending ∧ retirePrefix.toList <+: dst.toList))
  | _ => True

/-- A publication's name is no writer's temporary. -/
theorem not_names_of_writerStage {n : String} (h : isWriterStage n = true) : ¬ k.Names n := by
  rintro (rfl | hretire)
  · exact stagePrefix_not_prefix k.wellFormed (stagePrefix_of_writerStage h)
  · exact not_retirePrefix_of_writerStage h hretire

/-- A spared name of the pending day is not where the bytes are. -/
theorem Spared.ne_pending {m n : String} {f : File} (hp : Spared k x s ⟨.pending, k.day, m⟩)
    (hf : (s.dir .pending k.day).current.lookup n = some f) (hcontent : f.content = k.content)
    (hname : k.Names n) : n ≠ m := by
  rintro rfl
  rcases hp with (hne | ⟨-, hne⟩ | ⟨hq, -⟩) | hne | ⟨hq, -⟩
  · exact hne rfl
  · exact hne hname
  · cases hq
  · exact hne f hf hcontent
  · cases hq

/-- A spared name of the quarantine day is not where the bytes are. -/
theorem Spared.ne_quarantine {m n : String} {f : File}
    (hp : Spared k x s ⟨.quarantine, k.day, m⟩)
    (hf : (s.dir .quarantine k.day).current.lookup n = some f) (hcontent : f.content = k.content)
    (hstage : n ≠ quarantineStage) (hx : some n ≠ x) : n ≠ m := by
  rintro rfl
  rcases hp with (hne | ⟨hq, -⟩ | ⟨-, hq⟩) | hne | ⟨-, hq⟩
  · exact hne rfl
  · cases hq
  · exact hstage hq
  · exact hne f hf hcontent
  · exact hx hq

/-- A change of one directory keeps the bytes when the names that have them show the same file
before and after, or when a retirement name has them now. -/
theorem HeldBut.of_dir (h : HeldBut k x s) {tree : Tree} {day : Day} {l : Listing String File}
    (hdir : ∀ t d, s'.dir t d = if (t, d) = (tree, day) then (s.dir t d).update l else s.dir t d)
    (hpending : tree = .pending → day = k.day → k.InPending (s.dir tree day).current →
      k.InPending l)
    (hquarantine : tree = .quarantine → day = k.day →
      k.InQuarantine x (s.dir tree day).current → k.InQuarantine x l) : HeldBut k x s' := by
  rcases h with h | ⟨h, hbut⟩
  · refine Or.inl ?_
    rw [hdir]
    split
    · rename_i hd
      obtain ⟨rfl, rfl⟩ := Prod.mk.inj hd
      exact h.update (hpending rfl rfl h.current)
    · exact h
  · refine Or.inr ?_
    rw [hdir]
    split
    · rename_i hd
      obtain ⟨rfl, rfl⟩ := Prod.mk.inj hd
      have hkeep := hquarantine rfl rfl hbut
      refine ⟨h.update ?_, hkeep⟩
      obtain ⟨n, f, hf, hcontent, hstage, -⟩ := hkeep
      exact ⟨n, f, hf, hcontent, hstage, nofun⟩
    · exact ⟨h, hbut⟩

/-- Changing a directory at spared names only keeps the bytes. -/
theorem HeldBut.of_spared (h : HeldBut k x s) {tree : Tree} {day : Day} {l : Listing String File}
    {N : List String} (hms : ∀ m ∈ N, Spared k x s ⟨tree, day, m⟩)
    (hdir : ∀ t d, s'.dir t d = if (t, d) = (tree, day) then (s.dir t d).update l else s.dir t d)
    (hl : ∀ n, n ∉ N → l.lookup n = (s.dir tree day).current.lookup n) : HeldBut k x s' := by
  refine h.of_dir hdir ?_ ?_
  · rintro rfl rfl ⟨n, f, hf, hcontent, hname⟩
    refine ⟨n, f, ?_, hcontent, hname⟩
    rw [hl n fun hn => (hms n hn).ne_pending hf hcontent hname rfl, hf]
  · rintro rfl rfl ⟨n, f, hf, hcontent, hstage, hx⟩
    refine ⟨n, f, ?_, hcontent, hstage, hx⟩
    rw [hl n fun hn => (hms n hn).ne_quarantine hf hcontent hstage hx rfl, hf]

theorem HeldBut.put (h : HeldBut k x s) {p : Path} {f : File} (hp : Spared k x s p) :
    HeldBut k x (s.put p f) := by
  have hdir : ∀ t d, (s.put p f).dir t d = if (t, d) = (p.tree, p.day) then
      (s.dir t d).update ((s.dir p.tree p.day).current.insert p.name f) else s.dir t d := by
    intro t d
    rw [SpoolState.dir_put]
    split
    · rename_i hd
      obtain ⟨rfl, rfl⟩ := Prod.mk.inj hd
      rfl
    · rfl
  refine h.of_spared (N := [p.name]) (by simpa using hp) hdir fun n hn => ?_
  exact AList.lookup_insert_ne (by simpa using hn)

theorem HeldBut.remove (h : HeldBut k x s) {p : Path} (hp : Spared k x s p) :
    HeldBut k x (s.remove p) := by
  have hdir : ∀ t d, (s.remove p).dir t d = if (t, d) = (p.tree, p.day) then
      (s.dir t d).update ((s.dir p.tree p.day).current.erase p.name) else s.dir t d := by
    intro t d
    rw [SpoolState.dir_remove]
    split
    · rename_i hd
      obtain ⟨rfl, rfl⟩ := Prod.mk.inj hd
      rfl
    · rfl
  refine h.of_spared (N := [p.name]) (by simpa using hp) hdir fun n hn => ?_
  exact AList.lookup_erase_ne (by simpa using hn)

theorem HeldBut.sync (h : HeldBut k x s) (tree : Tree) (day : Day) :
    HeldBut k x (s.syncDir tree day) := by
  rcases h with h | ⟨h, hbut⟩
  · refine Or.inl ?_
    rw [SpoolState.dir_syncDir]
    split
    · exact h.sync
    · exact h
  · refine Or.inr ?_
    rw [SpoolState.dir_syncDir]
    split
    · exact ⟨h.sync, hbut⟩
    · exact ⟨h, hbut⟩

theorem HeldBut.of_dirs (h : HeldBut k x s) (hdir : ∀ tree day, s'.dir tree day = s.dir tree day) :
    HeldBut k x s' := by
  unfold HeldBut
  rw [hdir, hdir]
  exact h

/-- What is absent is spared. -/
theorem spared_of_absent {p : Path} (h : s.file p = none) : Spared k x s p :=
  Or.inr (Or.inl fun f hf => by rw [h] at hf; cases hf)

/-- What has other bytes is spared. -/
theorem spared_of_content {p : Path} {f : File} (hf : s.file p = some f)
    (hne : f.content ≠ k.content) : Spared k x s p := by
  refine Or.inr (Or.inl fun g hg => ?_)
  rw [hf] at hg
  exact Option.some.inj hg ▸ hne

/-- A rename keeps the bytes: they are not at its destination, and where they are at its source
they go to a retirement name. -/
theorem HeldBut.move (h : HeldBut k x s) {tree : Tree} {day : Day} {src dst : String} {f : File}
    (hfile : s.file ⟨tree, day, src⟩ = some f) (hdst : Spared k x s ⟨tree, day, dst⟩)
    (hsrc : Spared k x s ⟨tree, day, src⟩ ∨
      (tree = .pending ∧ retirePrefix.toList <+: dst.toList)) :
    HeldBut k x (s.move tree day src dst f) := by
  have hdir : ∀ t d, (s.move tree day src dst f).dir t d = if (t, d) = (tree, day) then
      (s.dir t d).update (((s.dir tree day).current.erase src).insert dst f) else s.dir t d := by
    intro t d
    rw [SpoolState.dir_move]
    split
    · rename_i hd
      obtain ⟨rfl, rfl⟩ := Prod.mk.inj hd
      rfl
    · rfl
  by_cases hretire : tree = .pending ∧ day = k.day ∧ f.content = k.content ∧
      retirePrefix.toList <+: dst.toList
  · -- the publication itself is retired: a retirement name has its bytes now
    obtain ⟨rfl, rfl, hcontent, hretired⟩ := hretire
    refine h.of_dir hdir (fun _ _ _ => ?_) (fun hq => by cases hq)
    exact ⟨dst, f, AList.lookup_insert _, hcontent, Or.inr hretired⟩
  · -- otherwise neither name has the bytes
    have hsrc' : Spared k x s ⟨tree, day, src⟩ := by
      rcases hsrc with hsrc | ⟨rfl, hretired⟩
      · exact hsrc
      · by_cases hday : day = k.day
        · exact spared_of_content hfile fun hcontent => hretire ⟨rfl, hday, hcontent, hretired⟩
        · exact Or.inl (Or.inl hday)
    refine h.of_spared (N := [src, dst]) (by simp [hsrc', hdst]) hdir fun n hn => ?_
    simp only [List.mem_cons, List.not_mem_nil, or_false, not_or] at hn
    rw [AList.lookup_insert_ne hn.2, AList.lookup_erase_ne hn.1]

/-- **An operation that spares the bytes keeps them held.** -/
theorem HeldBut.change (h : HeldBut k x s) {o : SpoolOp} (ho : Spares k x s o)
    (hchange : SpoolState.Change s o s') : HeldBut k x s' := by
  cases hchange with
  | create p content written habsent _ =>
      exact (h.put (f := ⟨written, s.nextInode, .private⟩) (spared_of_absent habsent)).of_dirs
        fun _ _ => rfl
  | truncate p f _ => exact h.put ho
  | rename tree day src dst replace f hfile hdst =>
      refine h.move hfile ?_ ho.2
      cases replace with
      | false => exact spared_of_absent (hdst rfl)
      | true => exact ho.1 rfl
  | link tree day src dst f _ habsent => exact h.put (spared_of_absent habsent)
  | unlink p f _ => exact h.remove ho
  | sync tree day => exact h.sync tree day
  | ensure tree day _ => exact h.of_dirs fun t d => by simp
  | ensureSync tree day =>
      have hensure : HeldBut k x (s.ensure tree day) := h.of_dirs fun t d => by simp
      exact hensure.sync tree day
  | _ => exact h.of_dirs fun _ _ => rfl

end Facts

end Milhouse
