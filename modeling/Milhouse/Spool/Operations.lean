import Milhouse.Spool.Change
import Milhouse.Spool.Commit

/-!
# Milhouse — which operations each program performs

Most of a program does not matter to most arguments about it; what matters is which operations it
can perform at all.

* **`moveToQuarantine_only`** — a move works under `quarantine/<day>`, and in `pending/<day>` it
  touches only its source and the private retirement names (`MoveOp`);
* **`classify_only`** — classification only reads;
* **`applyScan_only`** — the mutations of a pass destroy nothing but temporaries, quarantine leaves and
  the leaves that were queued (`Touches`).
-/

namespace Milhouse

open Interaction Interaction.Prog

/-- The operations of a certification. -/
def LookOp : SpoolOp → Prop
  | .readFile _ | .binding .. => True
  | _ => False

/-- The certification of a leaf opens and reads it and changes nothing. -/
theorem observes_of_lookOp {o : SpoolOp} (h : LookOp o) : o.observes := by
  cases o <;> trivial

/-- The operations of a copy into the quarantine. -/
def CopyOp (day : Day) : SpoolOp → Prop
  | .readFile _ | .binding .. => True
  | .link tree d _ _ | .syncDir tree d => tree = .quarantine ∧ d = day
  | .createExcl p _ | .unlink p => p.tree = .quarantine ∧ p.day = day
  | _ => False

/-- The operations of a quarantine move. -/
def MoveOp (day : Day) (name : String) : SpoolOp → Prop
  | .readFile _ | .binding .. => True
  | .ensureDir tree d sync => tree = .quarantine ∧ d = day ∧ sync = false
  | .link tree d _ _ => tree = .quarantine ∧ d = day
  | .syncDir _ d => d = day
  | .createExcl p content => p.day = day ∧
      (p.tree = .pending → stagePrefix.toList <+: p.name.toList ∧ content = [])
  | .unlink p => p.day = day ∧
      (p.tree = .pending → p.name = name ∨ stagePrefix.toList <+: p.name.toList)
  | .rename tree d src dst replace => tree = .pending ∧ d = day ∧ src = name ∧
      stagePrefix.toList <+: dst.toList ∧ replace = true
  | _ => False

/-- A look is among what a copy may do, so a program that only looks may run inside one. -/
theorem copyOp_of_lookOp {day : Day} {o : SpoolOp} (h : LookOp o) : CopyOp day o := by
  cases o <;> trivial

/-- A look is among what a move may do as well. -/
theorem moveOp_of_lookOp {day : Day} {name : String} {o : SpoolOp} (h : LookOp o) :
    MoveOp day name o := by
  cases o <;> trivial

/-- A move is a copy into the quarantine and a retirement of the source, so it may do all a copy
does. -/
theorem moveOp_of_copyOp {day : Day} {name : String} {o : SpoolOp} (h : CopyOp day o) :
    MoveOp day name o := by
  cases o with
  | createExcl p content => exact ⟨h.2, fun hp => by rw [h.1] at hp; cases hp⟩
  | unlink p => exact ⟨h.2, fun hp => by rw [h.1] at hp; cases hp⟩
  | syncDir tree d => exact h.2
  | link tree d src dst => exact h
  | readFile p => trivial
  | binding tree d => trivial
  | _ => exact h.elim

/-- A retired source is hidden under the retirement prefix until its copy is certain. -/
theorem retirePrefix_retirementName (snapshot : Snapshot) (candidate : String) :
    retirePrefix.toList <+: (retirementName snapshot candidate).toList := by
  refine ⟨("0-" ++ hexText snapshot.inode ++ "--" ++ candidate).toList, ?_⟩
  simp [retirementName]

/-- The retirement prefix extends the staging prefix, so the pass treats a retired leaf as staging.
-/
theorem stagePrefix_retirementName (snapshot : Snapshot) (candidate : String) :
    stagePrefix.toList <+: (retirementName snapshot candidate).toList := by
  refine ⟨("quarantine-retired-0-" ++ hexText snapshot.inode ++ "--" ++ candidate).toList, ?_⟩
  simp [retirementName, retirePrefix, stagePrefix]

section Only

variable {fmt : SegmentFormat} {day : Day} {name candidate digest : String} {p : Path}

theorem certifyLeaf_only : (certifyLeaf fmt p).Only LookOp := by
  unfold certifyLeaf
  refine .call trivial fun r => ?_
  rcases r with e | f
  · trivial
  · simp only
    split <;> trivial

theorem certifyTarget_only {tree : Tree} {d : Day} :
    (certifyTarget fmt d tree candidate digest).Only LookOp := by
  unfold certifyTarget
  refine certifyLeaf_only.bind fun found => ?_
  rcases found with _ | ⟨snapshot, x⟩ <;> trivial

theorem certifyLiveTarget_only {d : Day} :
    (certifyLiveTarget fmt d candidate digest).Only LookOp := by
  unfold certifyLiveTarget
  refine .call trivial fun live => ?_
  split
  · trivial
  · exact certifyTarget_only.bind fun _ => ⟨trivial, fun _ => trivial⟩

theorem dropStage_only : (dropStage day).Only (CopyOp day) :=
  ⟨⟨rfl, rfl⟩, fun _ => trivial⟩

/-- Undoing a copy takes back its own candidate and stage and nothing that was there before. -/
theorem cleanupCandidate_only {expected : Snapshot} :
    (cleanupCandidate fmt day candidate digest expected).Only (CopyOp day) := by
  unfold cleanupCandidate
  refine (certifyTarget_only.mono fun _ => copyOp_of_lookOp).bind fun found => ?_
  split
  · trivial
  · refine .call ⟨rfl, rfl⟩ fun unlinked => ?_
    split
    · trivial
    · refine .call ⟨rfl, rfl⟩ fun synced => ?_
      split
      · trivial
      · refine .call trivial fun r => ?_
        rcases r with (_ | _ | _) | _ <;> trivial

/-- The error path of a copy stays within what a copy may do, whether the candidate was published or
not. -/
theorem copyFailed_only {published : Option Snapshot} :
    (copyFailed fmt day candidate digest published).Only (CopyOp day) := by
  unfold copyFailed
  refine .call trivial fun live => ?_
  split
  · trivial
  · rcases published with _ | snapshot
    · trivial
    · exact cleanupCandidate_only.bind fun _ => trivial

/-- Certification of a published candidate may take it back, so it is a copying program and not a
look. -/
theorem certifyPublished_only {snapshot : Snapshot} :
    (certifyPublished fmt day candidate digest snapshot).Only (CopyOp day) := by
  unfold certifyPublished
  refine (certifyTarget_only.mono fun _ => copyOp_of_lookOp).bind fun found => ?_
  split
  · exact cleanupCandidate_only.bind fun _ => trivial
  · split
    · trivial
    · refine (certifyLiveTarget_only.mono fun _ => copyOp_of_lookOp).bind fun live => .call trivial fun bound => ?_
      split
      · exact cleanupCandidate_only.bind fun _ => trivial
      · split <;> trivial

theorem linkStaged_only : (linkStaged fmt day candidate digest).Only (CopyOp day) := by
  unfold linkStaged
  refine .call ⟨rfl, rfl⟩ fun linked => ?_
  rcases linked with _ | _ | _ | _
  · refine dropStage_only.bind fun dropped => .call trivial fun r => ?_
    rcases r with e | f
    · exact copyFailed_only
    · simp only
      split
      · exact dropStage_only.bind fun _ => copyFailed_only
      · refine .call ⟨rfl, rfl⟩ fun synced => ?_
        split
        · exact copyFailed_only
        · exact certifyPublished_only
  · exact dropStage_only.bind fun _ => trivial
  · exact dropStage_only.bind fun _ => trivial
  · exact dropStage_only.bind fun _ => trivial

/-- Staging, linking and certifying a copy all happen below the quarantine day. -/
theorem publishCopy_only {content : Bytes} :
    (publishCopy fmt day candidate content digest).Only (CopyOp day) := by
  have hstage : CopyOp day (.createExcl ⟨.quarantine, day, quarantineStage⟩ content) := ⟨rfl, rfl⟩
  unfold publishCopy
  refine .call trivial fun live => ?_
  split
  · trivial
  · refine .call hstage fun create => ?_
    rcases create with _ | _ | _
    · exact linkStaged_only
    · refine dropStage_only.bind fun cleared => ?_
      split
      · trivial
      · refine .call hstage fun again => ?_
        rcases again with _ | _ | _
        · exact linkStaged_only
        · trivial
        · exact dropStage_only.bind fun _ => trivial
    · exact dropStage_only.bind fun _ => trivial

theorem adoptExisting_only : (adoptExisting fmt day candidate digest).Only (CopyOp day) := by
  unfold adoptExisting
  refine .call trivial fun live => ?_
  split
  · trivial
  · refine .call trivial fun r => ?_
    rcases r with (_ | _ | _) | f
    · trivial
    · trivial
    · trivial
    · simp only
      split
      · trivial
      · split
        · trivial
        · refine .call ⟨rfl, rfl⟩ fun synced => ?_
          split
          · trivial
          · exact (certifyLiveTarget_only.mono fun _ => copyOp_of_lookOp).bind fun _ => trivial

/-- The attempts under numbered names write below the quarantine day only. -/
theorem placeCopy_only {base : String} {content : Bytes} {attempt remaining : Nat} :
    (placeCopy fmt day base content digest attempt remaining).Only (CopyOp day) := by
  induction remaining generalizing attempt with
  | zero => trivial
  | succ remaining ih =>
      unfold placeCopy
      generalize (if attempt = 0 then base else toString attempt ++ "." ++ base) = name'
      dsimp only
      split
      · exact ih
      · refine publishCopy_only.bind fun published => ?_
        rcases published with snapshot | _ | _ | _
        · trivial
        · refine adoptExisting_only.bind fun verdict => ?_
          rcases verdict with snapshot | _ | _ | _
          · trivial
          · exact ih
          · exact ih
          · trivial
        · refine adoptExisting_only.bind fun verdict => ?_
          rcases verdict with snapshot | _ | _ | _ <;> trivial
        · trivial

/-- Before the source is removed it is opened and read once more, and this only looks. -/
theorem rereadSource_only {snapshot : Snapshot} :
    (rereadSource fmt day name snapshot digest).Only (MoveOp day name) := by
  unfold rereadSource
  refine .call trivial fun live => ?_
  split
  · trivial
  · refine .call trivial fun r => ?_
    rcases r with e | f
    · trivial
    · simp only
      split
      · trivial
      · exact ⟨trivial, fun _ => ⟨trivial, fun _ => trivial⟩⟩

/-- A reservation that was not used is dropped under its retirement name, which no live segment can
have. -/
theorem cleanupEmptyReservation_only {retirement : String} {reserved : Nat}
    (hret : stagePrefix.toList <+: retirement.toList) :
    (cleanupEmptyReservation day retirement reserved).Only (MoveOp day name) := by
  unfold cleanupEmptyReservation
  refine .call trivial fun r => ?_
  rcases r with e | f
  · trivial
  · simp only
    split
    · trivial
    · refine .call trivial fun live => ?_
      split
      · trivial
      · refine .call ⟨rfl, fun _ => Or.inr hret⟩ fun unlinked => ?_
        split
        · exact ⟨rfl, fun _ => trivial⟩
        · trivial

/-- The name that is unlinked at the end is the source or its retirement name, never a live segment.
-/
theorem unlinkRetired_only {retirement : String} {placed : PlacedCopy}
    (hret : retirement = name ∨ stagePrefix.toList <+: retirement.toList) :
    (unlinkRetired fmt day retirement placed digest).Only (MoveOp day name) := by
  unfold unlinkRetired
  refine (certifyLiveTarget_only.mono fun _ => moveOp_of_lookOp).bind fun target => ?_
  split
  · trivial
  · refine .call trivial fun pendingHolds => ?_
    split
    · trivial
    · refine .call trivial fun quarantineHolds => ?_
      split
      · trivial
      · refine .call ⟨rfl, fun _ => hret⟩ fun unlinked => ?_
        split
        · trivial
        · refine .call rfl fun synced => ?_
          split
          · trivial
          · exact ⟨trivial, fun _ => (certifyLiveTarget_only.mono fun _ => moveOp_of_lookOp).bind fun _ => trivial⟩

/-- The source gives up its name by a rename to the retirement name on the same day. -/
theorem retireSource_only {snapshot : Snapshot} {retirement : String} {placed : PlacedCopy}
    (hret : stagePrefix.toList <+: retirement.toList) :
    (retireSource fmt day name retirement snapshot placed digest).Only (MoveOp day name) := by
  unfold retireSource
  refine .call ⟨rfl, fun _ => ⟨hret, rfl⟩⟩ fun create => ?_
  rcases create with _ | _ | _
  · refine .call trivial fun r => ?_
    rcases r with e | reserved
    · trivial
    · refine .call ⟨rfl, rfl, rfl, hret, rfl⟩ fun renamed => ?_
      rcases renamed with _ | _ | _ | _
      · refine .call rfl fun synced => ?_
        split
        · trivial
        · refine (certifyTarget_only.mono fun _ => moveOp_of_lookOp).bind fun retired => ?_
          split
          · trivial
          · exact unlinkRetired_only (Or.inr hret)
      · exact (cleanupEmptyReservation_only hret).bind fun _ => trivial
      · exact (cleanupEmptyReservation_only hret).bind fun _ => trivial
      · exact (cleanupEmptyReservation_only hret).bind fun _ => trivial
  · trivial
  · trivial

/-- The final removal acts on the source under its own name or under the retirement name that
replaced it. -/
theorem finalizeSourceRemoval_only {snapshot : Snapshot} {placed : PlacedCopy} :
    (finalizeSourceRemoval fmt day name snapshot placed digest).Only (MoveOp day name) := by
  unfold finalizeSourceRemoval
  refine .call trivial fun live => ?_
  split
  · trivial
  · refine (certifyLiveTarget_only.mono fun _ => moveOp_of_lookOp).bind fun target => ?_
    split
    · trivial
    · refine .call trivial fun quarantineHolds => ?_
      split
      · trivial
      · refine .call trivial fun r => ?_
        rcases r with e | f
        · trivial
        · simp only
          split
          · trivial
          · refine .call trivial fun bound => ?_
            split
            · trivial
            · split
              · exact unlinkRetired_only (Or.inl rfl)
              · exact retireSource_only (stagePrefix_retirementName _ _)

/-- So the second half of a move, after its copy is placed, touches the leaf it moves and nothing
else live. -/
theorem finishMove_only {snapshot : Snapshot} {placed : PlacedCopy} :
    (finishMove fmt day name snapshot digest placed).Only (MoveOp day name) := by
  unfold finishMove
  refine finalizeSourceRemoval_only.bind fun outcome => ?_
  rcases outcome with _ | _ | _
  · trivial
  · trivial
  · simp only
    split
    · exact (cleanupCandidate_only.mono fun _ => moveOp_of_copyOp).bind fun _ => trivial
    · trivial

/-- **Every operation of a quarantine move is a `MoveOp`.** -/
theorem moveToQuarantine_only {snapshot : Snapshot} :
    (moveToQuarantine fmt day name snapshot digest).Only (MoveOp day name) := by
  unfold moveToQuarantine
  refine .call ⟨rfl, rfl, rfl⟩ fun opened => ?_
  split
  · trivial
  · refine rereadSource_only.bind fun content => ?_
    rcases content with _ | content
    · trivial
    · dsimp only
      split
      · trivial
      · refine (placeCopy_only.mono fun _ => moveOp_of_copyOp).bind fun placed => ?_
        rcases placed with copy | reason | _
        · exact finishMove_only
        · trivial
        · trivial

end Only

/-! ## Classification reads -/

section Reads

variable {fmt : SegmentFormat} {scan : Scan fmt.Frame} {c : Candidate} {r : SegmentRecord}
  {ledger : List SegmentRecord} {retirements : List (String × Retirement)}
  {candidates copies : List Candidate} {b detail : String}

/-- What the trusted reader gives was read from some bytes. -/
theorem readTrustedSegment_yields {p : Path} {inventoried : Bool} :
    (readTrustedSegment fmt p inventoried).Yields fun x =>
      ∀ parsed, x = .ok parsed → ∃ content, fmt.read content = .ok parsed := by
  unfold readTrustedSegment
  refine .of_call fun r => ?_
  have hfail : ∀ code : String,
      (.ret (.error code) : SpoolProg (Except String (ParsedSegment fmt.Frame))).Yields fun x =>
        ∀ parsed, x = .ok parsed → ∃ content, fmt.read content = .ok parsed :=
    fun code parsed h => by cases h
  rcases r with (_ | _ | _) | f
  · exact hfail _
  · exact hfail _
  · exact hfail _
  · dsimp only
    split
    · exact hfail _
    · split
      · exact hfail _
      · split
        · exact hfail _
        · split
          · exact hfail _
          · rename_i parsed hread
            exact fun parsed' h => ⟨f.content, Except.ok.inj h ▸ hread⟩

/-- A trusted read only observes: the store is as it was, whatever the read finds. -/
theorem readTrustedSegment_only {p : Path} {inventoried : Bool} :
    (readTrustedSegment fmt p inventoried).Only SpoolOp.observes := by
  unfold readTrustedSegment
  refine .call trivial fun r => ?_
  rcases r with (_ | _ | _) | f
  · trivial
  · trivial
  · trivial
  · dsimp only
    repeat' split
    all_goals trivial

theorem rawSha256_only {p : Path} : (rawSha256 fmt p).Only SpoolOp.observes := by
  unfold rawSha256
  refine .call trivial fun r => ?_
  rcases r with e | f
  · trivial
  · dsimp only
    split <;> trivial

/-- Queueing a leaf for quarantine digests it and mutates nothing; the pass acts on the queue later.
-/
theorem queueQuarantine_only {day : Day} {name : String} :
    (queueQuarantine fmt scan day name b detail).Only SpoolOp.observes := by
  unfold queueQuarantine certifyLeaf
  refine Only.bind (.call trivial fun r => ?_) fun found => ?_
  · rcases r with e | f
    · trivial
    · dsimp only
      split <;> trivial
  · cases found <;> trivial

/-- Reading a leaf for the inventory is a trusted read, so it leaves the store as it is. -/
theorem inventoryLeaf_only {leaf : Day × String} :
    (inventoryLeaf fmt scan leaf).Only SpoolOp.observes := by
  unfold inventoryLeaf
  dsimp only
  split
  · refine .call trivial fun r => ?_
    rcases r with e | f
    · exact queueQuarantine_only.bind fun _ => trivial
    · dsimp only
      split
      · trivial
      · exact queueQuarantine_only.bind fun _ => trivial
  · split <;> trivial

/-- Verifying a committed segment is a look: its findings are queued and not acted on. -/
theorem verifyCommitted_only : (verifyCommitted fmt scan c r).Only SpoolOp.observes := by
  unfold verifyCommitted
  refine readTrustedSegment_only.bind fun x => ?_
  cases x with
  | error code =>
      dsimp only
      split
      · trivial
      · exact queueQuarantine_only
  | ok parsed =>
      dsimp only
      split
      · trivial
      · exact queueQuarantine_only

/-- Deciding what becomes of an orphan is a look too. -/
theorem reconcileOrphan_only : (reconcileOrphan fmt scan c).Only SpoolOp.observes := by
  unfold reconcileOrphan
  refine readTrustedSegment_only.bind fun x => ?_
  cases x with
  | error code =>
      dsimp only
      split
      · trivial
      · exact queueQuarantine_only
  | ok parsed =>
      dsimp only
      split
      · trivial
      · split
        · exact queueQuarantine_only
        · trivial

/-- Routing a candidate to verification, registration or quarantine mutates nothing by itself. -/
theorem routeCandidate_only :
    (routeCandidate fmt ledger retirements candidates scan c).Only SpoolOp.observes := by
  unfold routeCandidate
  split
  · trivial
  · split
    · exact verifyCommitted_only.bind fun _ => trivial
    · split
      · exact reconcileOrphan_only.bind fun _ => trivial
      · refine rawSha256_only.bind fun digest => ?_
        split
        · trivial
        · exact reconcileOrphan_only.bind fun _ => trivial

/-- The keeper of a conflict is found by reading the copies in their order. -/
theorem findKeeper_only : (findKeeper fmt ledger b copies).Only SpoolOp.observes := by
  unfold findKeeper
  split
  · trivial
  · split
    · trivial
    · refine readTrustedSegment_only.bind fun x => ?_
      cases x <;> trivial

theorem conflictDetail_only {first : Option String} :
    (conflictDetail fmt copies first).Only SpoolOp.observes := by
  induction copies generalizing first with
  | nil => trivial
  | cons c rest ih =>
      unfold conflictDetail
      refine rawSha256_only.bind fun digest => ?_
      cases digest with
      | none => trivial
      | some digest =>
          dsimp only
          split
          · trivial
          · exact ih

/-- Classifying a conflict reads every copy and mutates none of them. -/
theorem resolveConflict_only :
    (resolveConflict fmt ledger candidates scan b).Only SpoolOp.observes := by
  unfold resolveConflict queueCopies
  refine findKeeper_only.bind fun keeper => conflictDetail_only.bind fun detail => ?_
  refine Only.bind (Only.foldUntil fun c _ scan => ?_) fun _ => trivial
  split
  · trivial
  · exact queueQuarantine_only.bind fun _ => trivial

/-- **Classification only reads.** -/
theorem classify_only {leaves : List (Day × String)} :
    (classify fmt ledger retirements leaves).Only SpoolOp.observes := by
  unfold classify
  refine Only.bind (Only.foldUntil fun leaf _ scan => inventoryLeaf_only) fun scan₁ => ?_
  refine Only.bind (Only.foldUntil fun c _ scan => routeCandidate_only) fun scan₂ => ?_
  exact Only.bind (Only.foldUntil fun b _ scan => resolveConflict_only) fun scan₃ => trivial

end Reads

/-! ## What the mutations destroy -/

/-- The operations of a publication in `pending`: it works on a temporary and replaces no name. -/
def PublishOp : SpoolOp → Prop
  | .readFile _ | .token | .createExcl .. | .syncDir .. => True
  | .truncate p => p.tree = .pending ∧ isWriterStage p.name = true
  | .rename tree _ src _ replace =>
      tree = .pending ∧ isWriterStage src = true ∧ replace = false
  | _ => False

/-- The operations on tables and syncs. -/
def BookOp : SpoolOp → Prop
  | .insertSegment _ | .deleteTombstone _ | .syncDir .. => True
  | _ => False

/-- An operation that destroys nothing but temporaries, quarantine leaves and the leaves of `K`,
and neither prunes, delivers, shares the barrier nor remembers anything. -/
def Touches (K : Path → Prop) : SpoolOp → Prop
  | .unlink p => K p ∨ p.tree = .quarantine ∨ stagePrefix.toList <+: p.name.toList
  | .truncate p => stagePrefix.toList <+: p.name.toList
  | .rename tree day src dst replace =>
      (K ⟨tree, day, src⟩ ∨ stagePrefix.toList <+: src.toList) ∧
        (replace = true → stagePrefix.toList <+: dst.toList)
  | .pruneSegment .. | .note _ | .share | .export .. | .advanceStatus .. => False
  | _ => True

section Mutations

variable {fmt : SegmentFormat} {K : Path → Prop} {o : SpoolOp}

/-- An operation that only observes touches no path at all. -/
theorem touches_of_observes (h : o.observes) : Touches K o := by
  cases o <;> trivial

/-- Work on the books of the spool touches no path, whichever paths are watched. -/
theorem touches_of_bookOp (h : BookOp o) : Touches K o := by
  cases o <;> trivial

/-- Publishing a file destroys no watched path either: it writes and renames temporaries, and replaces
no name. -/
theorem touches_of_publishOp (h : PublishOp o) : Touches K o := by
  cases o with
  | truncate p => exact stagePrefix_of_writerStage h.2
  | rename tree d src dst replace =>
      refine ⟨Or.inr (stagePrefix_of_writerStage h.2.1), fun hreplace => ?_⟩
      rw [h.2.2] at hreplace
      cases hreplace
  | pruneSegment r now => exact h.elim
  | unlink p => exact h.elim
  | note e => exact h.elim
  | _ => trivial

/-- The pending path a move may touch is that of the leaf it moves. -/
theorem touches_of_moveOp {day : Day} {name : String} (hK : K ⟨.pending, day, name⟩)
    (h : MoveOp day name o) : Touches K o := by
  cases o with
  | unlink p =>
      obtain ⟨tree, d, n⟩ := p
      obtain ⟨rfl, hpending⟩ := h
      cases tree with
      | pending =>
          rcases hpending rfl with rfl | hstage
          · exact Or.inl hK
          · exact Or.inr (Or.inr hstage)
      | quarantine => exact Or.inr (Or.inl rfl)
  | rename tree d src dst replace =>
      obtain ⟨rfl, rfl, rfl, hstage, -⟩ := h
      exact ⟨Or.inl hK, fun _ => hstage⟩
  | truncate p => exact h.elim
  | pruneSegment r now => exact h.elim
  | note e => exact h.elim
  | _ => trivial

/-- Staging cleanup touches the staged leaves it was queued for. -/
theorem cleanStaging_only {cleanups : List (Day × String × Snapshot)}
    (hK : ∀ c ∈ cleanups, K ⟨.pending, c.1, c.2.1⟩) :
    (cleanStaging cleanups).Only (Touches K) := by
  induction cleanups with
  | nil => trivial
  | cons c rest ih =>
      obtain ⟨day, name, snapshot⟩ := c
      unfold cleanStaging
      refine Only.bind ?_ fun cleaned => ?_
      · unfold cleanupStaleReservation
        refine .call trivial fun live => ?_
        split
        · trivial
        · refine .call trivial fun r => ?_
          rcases r with e | f
          · trivial
          · dsimp only
            split
            · trivial
            · refine .call (Or.inl (hK (day, name, snapshot) List.mem_cons_self))
                fun unlinked => ?_
              split
              · trivial
              · exact .call trivial fun synced => .call trivial fun bound => trivial
      · split
        · exact ih fun c hc => hK c (List.mem_cons_of_mem _ hc)
        · trivial

/-- Registering the orphans works on the books only. -/
theorem registerOrphans_only {orphans : List (Orphan fmt.Frame)} :
    (registerOrphans orphans).Only BookOp := by
  induction orphans with
  | nil => trivial
  | cons orphan rest ih =>
      unfold registerOrphans
      refine .call trivial fun inserted => ?_
      split
      · exact ih
      · trivial

/-- Deleting a tombstone under the fence works on the books only. -/
theorem deleteTombstoneFenced_only {b : String} {day : Day} :
    (deleteTombstoneFenced b day).Only BookOp := by
  unfold deleteTombstoneFenced
  refine .call trivial fun fenced => ?_
  split
  · exact .call trivial fun _ => trivial
  · trivial

/-- Removing a file touches at most its own path. -/
theorem removeRegularFile_only {p : Path} (hK : K p) :
    (removeRegularFile p).Only (Touches K) := by
  unfold removeRegularFile
  refine .call trivial fun r => ?_
  rcases r with e | f
  · trivial
  · dsimp only
    split
    · trivial
    · refine .call (Or.inl hK) fun unlinked => ?_
      split
      · trivial
      · exact .call trivial fun _ => trivial

/-- Finishing a retirement touches the one segment path that its tombstone names. -/
theorem completeRetirement_only {day : Day} {b expected : String} (hK : K (segmentPath day b)) :
    (completeRetirement fmt day b expected).Only (Touches K) := by
  unfold completeRetirement
  refine (rawSha256_only.mono fun _ => touches_of_observes).bind fun digest => ?_
  split
  · exact (deleteTombstoneFenced_only.mono fun _ => touches_of_bookOp).bind fun _ => trivial
  · refine (removeRegularFile_only hK).bind fun outcome => ?_
    rcases outcome with _ | _ | _
    · exact .call trivial fun _ => trivial
    · trivial
    · trivial

/-- **The mutations of a pass destroy only what was queued.** -/
theorem applyScan_only {scan : Scan fmt.Frame}
    (hretired : ∀ r ∈ scan.retirements, K (segmentPath r.1 r.2.1))
    (hmoved : ∀ q ∈ scan.quarantines, K ⟨.pending, q.day, q.name⟩) :
    (applyScan fmt scan).Only (Touches K) := by
  unfold applyScan
  refine (registerOrphans_only.mono fun _ => touches_of_bookOp).bind fun registered => ?_
  split
  · trivial
  · refine Only.bind (Only.foldUntil fun r hr failures => ?_) fun failures₁ => ?_
    · refine (completeRetirement_only (hretired r hr)).bind fun detail => ?_
      cases detail <;> trivial
    refine Only.bind (Only.foldUntil fun t _ failures => ?_) fun failures₂ => ?_
    · refine (deleteTombstoneFenced_only.mono fun _ => touches_of_bookOp).bind fun cleared => ?_
      split <;> trivial
    refine Only.bind (Only.foldUntil fun q hq result => ?_) fun result => trivial
    refine Only.bind ?_ fun outcome => ?_
    · exact moveToQuarantine_only.mono fun o ho => touches_of_moveOp (hmoved q hq) ho
    · cases outcome <;> trivial

/-- A file is created under a staging name and linked to its own name, and nothing else changes. -/
theorem createRegularFile_only {p : Path} {content : Bytes} {attempts : Nat}
    (hp : p.tree = .pending) : (createRegularFile p content attempts).Only PublishOp := by
  induction attempts with
  | zero => trivial
  | succ attempts ih =>
      unfold createRegularFile
      refine .call trivial fun r => ?_
      cases r with
      | none => trivial
      | some token =>
          dsimp only
          split
          · trivial
          · rename_i htoken
            have hstage : isWriterStage (stagePrefix ++ token) = true :=
              writerStage_of_token (by simpa using htoken)
            have hsanitize : (sanitizeStaged ⟨p.tree, p.day, stagePrefix ++ token⟩).Only
                PublishOp := by
              unfold sanitizeStaged
              exact .call ⟨hp, hstage⟩ fun _ => trivial
            refine .call trivial fun create => ?_
            rcases create with _ | _ | _
            · unfold publishStaged
              refine .call ⟨hp, hstage, rfl⟩ fun renamed => ?_
              rcases renamed with _ | _ | _ | _
              · refine .call trivial fun synced => ?_
                split
                · trivial
                · refine .call trivial fun r => ?_
                  rcases r with e | f <;> trivial
              · exact .call ⟨hp, hstage⟩ fun _ => trivial
              · exact hsanitize
              · trivial
            · exact ih
            · exact hsanitize

/-- **Publication replaces no name.** -/
theorem publishSegmentBytes_only {p : Path} {content : Bytes} (hp : p.tree = .pending) :
    (publishSegmentBytes p content).Only PublishOp := by
  unfold publishSegmentBytes
  refine .call trivial fun r => ?_
  rcases r with (_ | _ | _) | f
  · exact createRegularFile_only hp
  all_goals trivial

/-- A pass that destroys whatever it queued. -/
theorem reconcilePass_only : (reconcilePass fmt).Only (Touches fun _ => True) := by
  unfold reconcilePass
  refine .call trivial fun r => ?_
  cases r with
  | none => trivial
  | some ledger =>
      refine .call trivial fun r => ?_
      cases r with
      | none => trivial
      | some retirements =>
          refine .call trivial fun r => ?_
          cases r with
          | none => trivial
          | some leaves =>
              refine (classify_only.mono fun _ => touches_of_observes).bind fun scan => ?_
              split
              · trivial
              · refine (cleanStaging_only fun _ _ => trivial).bind fun stuck => ?_
                cases stuck with
                | some day => trivial
                | none => exact applyScan_only (fun _ _ => trivial) fun _ _ => trivial

end Mutations

end Milhouse
